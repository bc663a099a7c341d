import Concord.Lexicon.Entry
import Concord.Text.Lowercase
import Concord.Text.Pieces

/-!
# Tokens

A text is cut into *units*, counted from 1: every comma is one, and so is every run of other
characters between blanks. A unit loses the stops `.`, `!` and `?` at its ends; if nothing remains
it gives no token but keeps its number. A comma separates sentences whatever the lexicon says, and
every other word is looked up. One unknown word refuses the whole text.
-/

namespace Concord

open Text

/-- A word of a text with what the lexicon knows of it and the number of its unit. -/
structure Token where
  word : String
  category : Category
  number : Number
  position : Nat
  deriving DecidableEq

/-- Whether a token ends a sentence. -/
def Token.isSeparator (t : Token) : Bool := t.category == .comma

/-- Why a text cannot be cut into tokens. -/
inductive LexicalError where
  | unknownWord (word : String) (position : Nat)
  deriving DecidableEq

/-- The text shown for an error. -/
def LexicalError.message : LexicalError → String
  | unknownWord word position => s!"Unknown word '{word}' at position {position}"

/-- A text with a blank on each side of every comma. -/
def isolateCommas (text : List Char) : List Char :=
  text.flatMap fun c => if c = ',' then [' ', ',', ' '] else [c]

/-- The units of a text, in lower case. -/
def units (text : List Char) : List (List Char) := words (lowercase (isolateCommas text))

/-- Whether a character is punctuation that may surround a word. -/
def isStop (c : Char) : Bool := c == '.' || c == '!' || c == '?'

/-- The token of a word: a comma is a separator, any other word takes its entry. -/
def classify (lexicon : Lexicon) (word : String) (position : Nat) : Except LexicalError Token :=
  if word = "," then .ok ⟨",", .comma, .any, position⟩
  else
    match lexicon word with
    | some entry => .ok ⟨word, entry.category, entry.number, position⟩
    | none => .error (.unknownWord word position)

/-- The tokens of some units, the first of which has the given number. -/
def classifyUnits (lexicon : Lexicon) (position : Nat) :
    List (List Char) → Except LexicalError (List Token)
  | [] => .ok []
  | unit :: rest =>
    match strip isStop unit with
    | [] => classifyUnits lexicon (position + 1) rest
    | word =>
      match classify lexicon (.ofList word) position with
      | .error e => .error e
      | .ok token => (classifyUnits lexicon (position + 1) rest).map (token :: ·)

/-- The tokens of a text, or the first word that the lexicon does not know. -/
def tokenize (lexicon : Lexicon) (text : String) : Except LexicalError (List Token) :=
  classifyUnits lexicon 1 (units text.toList)

end Concord
