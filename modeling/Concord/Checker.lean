import Concord.Lexicon.English
import Concord.Lexicon.Listing
import Concord.Verdict

/-!
# Checkers

A checker holds the active lexicon: the English one, or the lexicon file that replaces it, with the
words of an additional file entered over it.
-/

namespace Concord

open Text

/-- The files that make up the active lexicon. -/
structure Sources where
  /-- The file that replaces the English lexicon. -/
  lexicon : Option Path
  /-- The file whose words are added. -/
  extra : Option Path
  deriving DecidableEq

/-- Why a checker cannot be set up. -/
inductive SetupError where
  | lexicon (cause : LoadError)
  | extra (cause : LoadError)
  deriving DecidableEq

/-- The text shown for an error. -/
def SetupError.message : SetupError → String
  | lexicon cause => s!"Error cargando léxico: {cause.message}"
  | extra cause => s!"Error cargando diccionario adicional: {cause.message}"

/-- A lexicon that is ready for use. -/
structure Checker where
  trie : Trie

/-- A new checker, with the number of entries in the additional file. -/
structure Setup where
  checker : Checker
  added : Option Nat

namespace Checker

/-- The checker for the English lexicon. -/
def english : Checker := ⟨English.trie⟩

/-- The lexicon file that replaces the English one, if there is one. -/
def loaded (files : FileSystem) (lexicon : Option Path) : Except SetupError (Option Trie) :=
  match lexicon with
  | none => .ok none
  | some path =>
    match Trie.empty.appendFile files path with
    | ⟨_, .error cause⟩ => .error (.lexicon cause)
    | ⟨trie, .ok _⟩ => .ok (some trie)

/-- Sets up a checker from files. Words are added to the loaded lexicon or to `copy`, a copy of the
English one. -/
def buildOver (copy : Trie) (files : FileSystem) (sources : Sources) : Except SetupError Setup :=
  match loaded files sources.lexicon, sources.extra with
  | .error e, _ => .error e
  | .ok base, none => .ok ⟨⟨base.getD English.trie⟩, none⟩
  | .ok base, some path =>
    match (base.getD copy).appendFile files path with
    | ⟨_, .error cause⟩ => .error (.extra cause)
    | ⟨extended, .ok added⟩ => .ok ⟨⟨extended⟩, some added⟩

/-- Sets up a checker from files. In what order the English words are copied makes no difference. -/
def build (files : FileSystem) (sources : Sources) : Except SetupError Setup :=
  buildOver English.copy files sources

/-- The active lexicon. -/
def lexicon (c : Checker) : Lexicon := c.trie.lexicon

/-- The tokens of a text. -/
def tokens (c : Checker) (text : String) : Except LexicalError (List Token) :=
  tokenize c.lexicon text

/-- The verdict about a text. -/
def analyze (c : Checker) (text : String) : Verdict := Concord.analyze c.lexicon text

/-- The lines of a text that are not blank, without the blanks around them. -/
def sentenceLines (text : String) : List String :=
  (((Text.lines '\n' '\r' text.toList).map trim).filter (!·.isEmpty)).map String.ofList

/-- Every line that is not blank, with the verdict about it. -/
def analyzeLines (c : Checker) (text : String) : List (String × Verdict) :=
  (sentenceLines text).map fun line => (line, c.analyze line)

end Checker

end Concord
