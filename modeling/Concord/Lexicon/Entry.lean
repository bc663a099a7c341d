import Concord.Lexicon.Number

/-!
# Lexicon entries

What a lexicon knows of a word, and a lexicon as the rest of the library sees it: a function that
answers for every word.
-/

namespace Concord

/-- What a lexicon knows of a word. -/
structure Entry where
  category : Category
  number : Number
  deriving DecidableEq

/-- Any source of entries. A word without an entry is unknown. -/
abbrev Lexicon := String → Option Entry

end Concord
