import Concord.Token

/-!
# Syntax errors

What can be wrong with a sentence whose words are all known. Every error names the position of the
token that caused it, or the position after the last token when tokens are missing.
-/

namespace Concord

/-- Why a sentence is not accepted. -/
inductive SyntaxError where
  | unexpectedToken (expected found : Category) (word : String) (position : Nat)
  | unexpectedEnd (expected : Category) (position : Nat)
  | missingNounPhrase (position : Nat)
  | invalidNounPhraseStart (found : Category) (word : String) (position : Nat)
  | determinerAgreement (determiner : String) (determinerNumber : Number) (noun : String)
      (nounNumber : Number) (position : Nat)
  | bareSingularNoun (noun : String) (position : Nat)
  | subjectVerbAgreement (subject : Number) (verb : String) (verbNumber : Number) (position : Nat)
  | leadingSeparator (position : Nat)
  | expectedSeparator (word : String) (position : Nat)
  deriving DecidableEq

namespace SyntaxError

/-- The position of the token that caused an error. -/
def position : SyntaxError → Nat
  | unexpectedToken _ _ _ p => p
  | unexpectedEnd _ p => p
  | missingNounPhrase p => p
  | invalidNounPhraseStart _ _ p => p
  | determinerAgreement _ _ _ _ p => p
  | bareSingularNoun _ p => p
  | subjectVerbAgreement _ _ _ p => p
  | leadingSeparator p => p
  | expectedSeparator _ p => p

/-- The text shown for an error. -/
def message : SyntaxError → String
  | unexpectedToken expected found word p =>
    s!"Expected {expected.code}, found {found.code} ('{word}') at position {p}."
  | unexpectedEnd expected p =>
    s!"Unexpected end of input at position {p}. Expected category: {expected.code}."
  | missingNounPhrase p => s!"Expected NP, found end of sentence at position {p}."
  | invalidNounPhraseStart found word p =>
    s!"Expected DET, PRON or N to start NP, found {found.code} ('{word}') at position {p}."
  | determinerAgreement determiner determinerNumber noun nounNumber p =>
    s!"Agreement Error: Determiner '{determiner}' ({determinerNumber.code}) mismatch with " ++
      s!"noun '{noun}' ({nounNumber.code}) at position {p}."
  | bareSingularNoun noun p =>
    s!"Grammar Error: Countable singular noun '{noun}' cannot appear without a determiner " ++
      s!"(position {p})."
  | subjectVerbAgreement subject verb verbNumber p =>
    s!"Subject–Verb Agreement Error: Subject is {subject.code}, but verb '{verb}' is " ++
      s!"{verbNumber.code} (position {p})."
  | leadingSeparator p => s!"Unexpected comma found at start of sentence (position {p})."
  | expectedSeparator word p => s!"Expected ',' or End of Input, found '{word}' at position {p}."

end SyntaxError

end Concord
