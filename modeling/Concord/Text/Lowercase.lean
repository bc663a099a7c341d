import Concord.Text.CaseTable
import Concord.Text.LowerTable

/-!
# Lower-casing

The lower-case form of a text by the full mappings of Unicode. Two letters need more than a table:

- `İ` becomes an `i` followed by a combining dot above;
- `Σ` becomes `ς` at the end of a word and `σ` elsewhere. It ends a word when a cased letter stands
  before it and none after it, passing over case-ignorable characters on both sides.

What stands before a letter is carried along as one truth value, because only the nearest character
that is not case-ignorable matters.
-/

namespace Concord.Text

/-- Whether the first character that is not case-ignorable exists and is cased. -/
def beginsCased : List Char → Bool
  | [] => false
  | c :: cs => if isCaseIgnorable c then beginsCased cs else isCased c

/-- Whether a text that ended in a cased letter (`before`) still does after `c`. -/
def endsCased (before : Bool) (c : Char) : Bool :=
  if isCaseIgnorable c then before else isCased c

/-- The lower-case form of `c` between a text that ended in a cased letter, or not, and the text
`after`. -/
def lowerChar (before : Bool) (c : Char) (after : List Char) : List Char :=
  if c = 'Σ' then [if before && !beginsCased after then 'ς' else 'σ']
  else if c = 'İ' then ['i', '\u0307']
  else [.ofNat (lowerBy c.toNat lowerTable)]

/-- The lower-case form of the rest of a text. -/
def lowercaseAfter (before : Bool) : List Char → List Char
  | [] => []
  | c :: cs => lowerChar before c cs ++ lowercaseAfter (endsCased before c) cs

/-- The lower-case form of a text. -/
def lowercase (cs : List Char) : List Char := lowercaseAfter false cs

@[simp] theorem lowercase_nil : lowercase [] = [] := rfl

/-- Lower-casing loses no character: an empty result comes from the empty text alone. -/
theorem lowercaseAfter_eq_nil {before : Bool} {cs : List Char} :
    lowercaseAfter before cs = [] ↔ cs = [] := by
  cases cs with
  | nil => simp [lowercaseAfter]
  | cons c cs =>
    simp only [lowercaseAfter, lowerChar]
    split
    · simp
    · split <;> simp

end Concord.Text
