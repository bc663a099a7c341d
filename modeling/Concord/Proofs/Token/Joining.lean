import Concord.Proofs.Token.Scan

/-!
# The tokens of joined texts

Texts that are joined by commas are cut into tokens one after the other. A comma is a unit of its
own, and nothing is lower-cased across it, so the units of each text are the same as when it stands
alone. Only their numbers move on, by the units and commas before the text (`unitsThrough`).

Main statements: `tokensFrom_eq`, a text cut after `k` units has its own tokens or its own error,
moved on by `k`; `tokensFrom_comma_of_ok` and `tokensFrom_comma_of_error`, a text and a comma before
another; `tokensFrom_joined_of_error`, the first text that cannot be cut gives the error.
-/

namespace Concord

open Text

/-! ## Moving on -/

/-- A token moved on by `k` units. -/
def Token.shift (k : Nat) (t : Token) : Token := { t with position := t.position + k }

@[simp] theorem Token.category_shift (k : Nat) (t : Token) : (t.shift k).category = t.category :=
  rfl

@[simp] theorem Token.number_shift (k : Nat) (t : Token) : (t.shift k).number = t.number := rfl

/-- An error moved on by `k` units. -/
def LexicalError.shift (k : Nat) : LexicalError → LexicalError
  | unknownWord word position => unknownWord word (position + k)

/-- The tokens of a text, or its error, moved on by `k` units. -/
def moved (k : Nat) (result : Except LexicalError (List Token)) :
    Except LexicalError (List Token) :=
  match result with
  | .error e => .error (e.shift k)
  | .ok ts => .ok (ts.map (Token.shift k))

/-- The comma with the given number among the units. -/
def commaAt (position : Nat) : Token := ⟨",", .comma, .any, position⟩

variable {lexicon : Lexicon} {e : LexicalError} {ts : List Token}

theorem classify_add (word : String) (position k : Nat) :
    classify lexicon word (position + k) =
      match classify lexicon word position with
      | .error e => .error (e.shift k)
      | .ok t => .ok (t.shift k) := by
  unfold classify
  split
  · rfl
  · cases lexicon word <;> rfl

/-- Units counted on from a later number give the same tokens there. -/
theorem classifyUnits_add (us : List (List Char)) (position k : Nat) :
    classifyUnits lexicon (position + k) us = moved k (classifyUnits lexicon position us) := by
  induction us generalizing position with
  | nil => rfl
  | cons unit us ih =>
    have hnext : position + k + 1 = position + 1 + k := by omega
    rw [classifyUnits, classifyUnits, hnext, ih]
    split
    · rfl
    · rw [classify_add]
      cases classify lexicon _ position with
      | error e => rfl
      | ok t => cases classifyUnits lexicon (position + 1) us <;> rfl

/-- The first unknown word counts; if the units before have none, those after them are numbered on.
-/
theorem classifyUnits_append (us vs : List (List Char)) (position : Nat) :
    classifyUnits lexicon position (us ++ vs) =
      match classifyUnits lexicon position us with
      | .error e => .error e
      | .ok ts => (classifyUnits lexicon (position + us.length) vs).map (ts ++ ·) := by
  induction us generalizing position with
  | nil => cases hvs : classifyUnits lexicon position vs <;> simp [classifyUnits, hvs, Except.map]
  | cons unit us ih =>
    have hnumber : position + (unit :: us).length = position + 1 + us.length := by
      rw [List.length_cons]
      omega
    rw [List.cons_append, classifyUnits, classifyUnits, hnumber, ih]
    split
    · rfl
    · cases classify lexicon _ position with
      | error e => rfl
      | ok t =>
        cases classifyUnits lexicon (position + 1) us with
        | error e => rfl
        | ok ts => cases classifyUnits lexicon (position + 1 + us.length) vs <;> rfl

theorem classifyUnits_comma (us : List (List Char)) (position : Nat) :
    classifyUnits lexicon position ([','] :: us) =
      (classifyUnits lexicon (position + 1) us).map (commaAt position :: ·) := rfl

/-! ## Joining -/

/-- The texts with commas between them. -/
def joined (texts : List String) : String := ",".intercalate texts

/-- The number of units of a text. -/
def unitCount (text : String) : Nat := (rawUnits text.toList).length

/-- The number of units of some texts and of the commas after each of them. -/
def unitsThrough : List String → Nat
  | [] => 0
  | text :: texts => unitCount text + 1 + unitsThrough texts

/-- The tokens of a text that comes after `k` units. -/
def tokensFrom (lexicon : Lexicon) (k : Nat) (text : String) : Except LexicalError (List Token) :=
  classifyUnits lexicon (1 + k) (units text.toList)

theorem tokensFrom_eq (k : Nat) (text : String) :
    tokensFrom lexicon k text = moved k (tokenize lexicon text) :=
  classifyUnits_add _ 1 k

theorem isolateCommas_append (us vs : List Char) :
    isolateCommas (us ++ vs) = isolateCommas us ++ isolateCommas vs :=
  List.flatMap_append

/-- The units before a comma are those of the text before it. -/
theorem units_append_comma (us vs : List Char) :
    units (us ++ ',' :: vs) = units us ++ [','] :: units vs := by
  have hspace : isBlank ' ' = true := by decide
  have hcomma := units_comma vs
  unfold units at hcomma ⊢
  rw [isolateCommas_comma, lowercase_cons_blank _ hspace, words_cons_blank _ hspace] at hcomma
  rw [isolateCommas_append, isolateCommas_comma, lowercase_append_blank _ _ hspace,
    words_append _ _ hspace, hcomma]

/-- A blank between two texts keeps their units apart. -/
theorem units_append_blank (us vs : List Char) {c : Char} (hc : isBlank c = true) :
    units (us ++ c :: vs) = units us ++ units vs := by
  unfold units
  rw [isolateCommas_append, isolateCommas_cons vs (ne_comma_of_isBlank hc),
    lowercase_append_blank _ _ hc, words_append _ _ hc]

theorem length_units (text : String) : (units text.toList).length = unitCount text := by
  rw [units_eq, List.length_map, unitCount]

theorem unitCount_le (text : String) : unitCount text ≤ text.length :=
  length_rawUnits_le text.toList

theorem units_comma_toList (text rest : String) :
    units (text ++ "," ++ rest).toList = units text.toList ++ [','] :: units rest.toList := by
  have htoList : (text ++ "," ++ rest).toList = text.toList ++ ',' :: rest.toList := by simp
  rw [htoList, units_append_comma]

/-- A text that cannot be cut alone cannot be cut before a comma. -/
theorem tokensFrom_comma_of_error {k : Nat} {text : String} (h : tokenize lexicon text = .error e)
    (rest : String) : tokensFrom lexicon k (text ++ "," ++ rest) = .error (e.shift k) := by
  have htext : classifyUnits lexicon (1 + k) (units text.toList) = .error (e.shift k) := by
    rw [← tokensFrom, tokensFrom_eq, h, moved]
  rw [tokensFrom, units_comma_toList, classifyUnits_append, htext]

/-- A text before a comma has its own tokens, and what follows the comma is cut after its units. -/
theorem tokensFrom_comma_of_ok {k : Nat} {text : String} (h : tokenize lexicon text = .ok ts)
    (rest : String) :
    tokensFrom lexicon k (text ++ "," ++ rest) =
      (tokensFrom lexicon (k + (unitCount text + 1)) rest).map fun us =>
        ts.map (Token.shift k) ++ commaAt (k + (unitCount text + 1)) :: us := by
  have htext : classifyUnits lexicon (1 + k) (units text.toList) =
      .ok (ts.map (Token.shift k)) := by
    rw [← tokensFrom, tokensFrom_eq, h, moved]
  have hcomma : 1 + k + unitCount text = k + (unitCount text + 1) := by omega
  rw [tokensFrom, units_comma_toList, classifyUnits_append, htext, length_units, hcomma]
  simp only
  rw [classifyUnits_comma, tokensFrom, Nat.add_comm 1]
  cases classifyUnits lexicon (k + (unitCount text + 1) + 1) (units rest.toList) <;> rfl

theorem joined_cons {texts : List String} (h : texts ≠ []) (text : String) :
    joined (text :: texts) = text ++ "," ++ joined texts :=
  String.intercalate_cons_of_ne_nil h

theorem unitsThrough_append (before after : List String) :
    unitsThrough (before ++ after) = unitsThrough before + unitsThrough after := by
  induction before with
  | nil => exact (Nat.zero_add _).symm
  | cons text before ih =>
    rw [List.cons_append, unitsThrough, unitsThrough, ih]
    omega

theorem unitsThrough_concat (texts : List String) (text : String) :
    unitsThrough (texts ++ [text]) = unitsThrough texts + (unitCount text + 1) :=
  unitsThrough_append texts [text]

/-- The first text that cannot be cut gives the error of joined texts. -/
theorem tokensFrom_joined_of_error {k : Nat} {before after : List String} {text : String}
    (hbefore : ∀ t ∈ before, ∃ ts, tokenize lexicon t = .ok ts)
    (h : tokenize lexicon text = .error e) :
    tokensFrom lexicon k (joined (before ++ text :: after)) =
      .error (e.shift (k + unitsThrough before)) := by
  induction before generalizing k with
  | nil =>
    have hk : k + unitsThrough [] = k := rfl
    rw [List.nil_append, hk]
    by_cases hafter : after = []
    · rw [hafter, joined, String.intercalate_singleton, tokensFrom_eq, h, moved]
    · rw [joined_cons hafter, tokensFrom_comma_of_error h]
  | cons first before ih =>
    obtain ⟨⟨ts, hfirst⟩, hbefore⟩ := List.forall_mem_cons.1 hbefore
    rw [List.cons_append, joined_cons (by simp), tokensFrom_comma_of_ok hfirst, ih hbefore,
      unitsThrough, Nat.add_assoc]
    rfl

end Concord
