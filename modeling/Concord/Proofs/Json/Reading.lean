import Mathlib.Data.List.Forall2
import Mathlib.Data.List.Induction
import Concord.Json

/-!
# Reading JSON

A JSON text is read in two steps. First it is cut into its parts: the marks `[`, `]`, `\x7b`,
`\x7d`, `,` and `:`, the words `true` and `false`, and the strings. Then the parts are put on a
stack from left to right. A value joins the name and the colon below it, and a closing bracket takes
its entries off the stack, back to the bracket that opened them. A text is a document if one value
is left in the end.

The reader knows nothing of how values are written here. It takes any layout and all escapes of a
string but those of half a character beyond U+FFFF, and it refuses what is not JSON: a raw control
character in a string, a comma without an entry after it, a name without a value.

**How writing is read back** (`Takes`). A text takes a stack to another one. Texts that follow each
other compose, so what is said of a value is said of its parts, by induction along `renderAt`.

Main statement: `decode?_render`, a value that is written is read back.
-/

namespace Concord.Json

/-! ## Parts -/

/-- A part of a text, and what stands on the stack. -/
inductive Part where
  | mark (c : Char)
  | value (value : Json)
  | field (name : String) (value : Json)

/-- The characters between the parts that do not count. -/
def isGap (c : Char) : Bool := c == ' ' || c == '\t' || c == '\n' || c == '\r'

/-- The characters that are parts by themselves. -/
def marks : List Char := ['[', ']', '\x7b', '\x7d', ',', ':']

/-- The value of a hexadecimal digit. -/
def hexValue? (c : Char) : Option Nat :=
  if '0' ≤ c ∧ c ≤ '9' then some (c.toNat - 48)
  else if 'a' ≤ c ∧ c ≤ 'f' then some (c.toNat - 87)
  else if 'A' ≤ c ∧ c ≤ 'F' then some (c.toNat - 55)
  else none

/-- The character with a code point in hexadecimal digits. -/
def coded? (digits : List Char) : Option Char := do
  let values ← digits.mapM hexValue?
  let n := values.foldl (fun n value => 16 * n + value) 0
  if n.isValidChar then some (.ofNat n) else none

/-- The character for which a letter stands after a backslash. -/
def escaped? : Char → Option Char
  | '"' => some '"'
  | '\\' => some '\\'
  | '/' => some '/'
  | 'b' => some '\x08'
  | 'f' => some '\x0c'
  | 'n' => some '\n'
  | 'r' => some '\r'
  | 't' => some '\t'
  | _ => none

mutual

/-- The parts of a text. -/
def parts? : List Char → Option (List Part)
  | [] => some []
  | '"' :: cs => partsAfter? "" cs
  | 't' :: 'r' :: 'u' :: 'e' :: cs => (parts? cs).map (.value (.bool true) :: ·)
  | 'f' :: 'a' :: 'l' :: 's' :: 'e' :: cs => (parts? cs).map (.value (.bool false) :: ·)
  | c :: cs =>
    if isGap c then parts? cs
    else if c ∈ marks then (parts? cs).map (.mark c :: ·)
    else none

/-- The parts of a text that goes on with a string whose beginning has been read. -/
def partsAfter? (s : String) : List Char → Option (List Part)
  | [] => none
  | '"' :: cs => (parts? cs).map (.value (.string s) :: ·)
  | '\\' :: 'u' :: a :: b :: c :: d :: cs =>
    (coded? [a, b, c, d]).bind fun e => partsAfter? (s.push e) cs
  | '\\' :: c :: cs => (escaped? c).bind fun e => partsAfter? (s.push e) cs
  | c :: cs => if c = '\\' ∨ c.toNat < 0x20 then none else partsAfter? (s.push c) cs

end

/-! ## The stack -/

/-- Puts a value on a stack. It joins the name and the colon that wait for it. -/
def push (value : Json) : List Part → List Part
  | .mark ':' :: .value (.string name) :: stack => .field name value :: stack
  | stack => .value value :: stack

section

variable {α : Type}

/-- Takes entries off a stack, back to the bracket that opened them; `after` have been taken. -/
def entries? (left : Char) (item? : Part → Option α) (after : List α) :
    List Part → Option (List α × List Part)
  | part :: .mark c :: stack =>
    (item? part).bind fun a =>
      if c = left then some (a :: after, stack)
      else if c = ',' then entries? left item? (a :: after) stack
      else none
  | _ => none

/-- Takes all between two brackets off a stack. -/
def close? (left : Char) (item? : Part → Option α) : List Part → Option (List α × List Part)
  | .mark c :: stack => if c = left then some ([], stack) else none
  | stack => entries? left item? [] stack

end

/-- The value that a part is. -/
def Part.value? : Part → Option Json
  | value v => some v
  | _ => none

/-- The field that a part is. -/
def Part.field? : Part → Option (String × Json)
  | field name v => some (name, v)
  | _ => none

/-- Puts a part on a stack. -/
def shift (stack : List Part) : Part → Option (List Part)
  | .value v => some (push v stack)
  | .mark ']' =>
    (close? '[' Part.value? stack).map fun (items, stack) => push (.array items) stack
  | .mark '\x7d' =>
    (close? '\x7b' Part.field? stack).map fun (fields, stack) => push (.object fields) stack
  | part => some (part :: stack)

/-- The value of a document. -/
def decode? (text : String) : Option Json := do
  let parts ← parts? text.toList
  match ← parts.foldlM shift [] with
  | [.value v] => some v
  | _ => none

theorem parts?_gap {c : Char} (hc : isGap c = true) (cs : List Char) :
    parts? (c :: cs) = parts? cs := by
  have hcases : ((c = ' ' ∨ c = '\t') ∨ c = '\n') ∨ c = '\r' := by simpa [isGap] using hc
  rcases hcases with ((rfl | rfl) | rfl) | rfl <;> rfl

theorem parts?_mark {c : Char} (hc : c ∈ marks) (cs : List Char) :
    parts? (c :: cs) = (parts? cs).map (.mark c :: ·) := by
  simp only [marks, List.mem_cons, List.not_mem_nil, or_false] at hc
  rcases hc with rfl | rfl | rfl | rfl | rfl | rfl <;> rfl

/-- Reading a text takes a stack to another one, whatever follows the text. -/
def Takes (text : List Char) (stack stack' : List Part) : Prop :=
  ∃ parts, (∀ rest, parts? (text ++ rest) = (parts? rest).map (parts ++ ·)) ∧
    parts.foldlM shift stack = some stack'

namespace Takes

variable {text text' : List Char} {stack stack' stack'' : List Part}

theorem nil (stack : List Part) : Takes [] stack stack := by
  refine ⟨[], fun rest => ?_, rfl⟩
  cases h : parts? rest <;> simp [h]

/-- Texts that follow each other. -/
theorem append (h : Takes text stack stack') (h' : Takes text' stack' stack'') :
    Takes (text ++ text') stack stack'' := by
  obtain ⟨ps, hparts, hshift⟩ := h
  obtain ⟨ps', hparts', hshift'⟩ := h'
  refine ⟨ps ++ ps', fun rest => ?_, ?_⟩
  · rw [List.append_assoc, hparts, hparts', Option.map_map]
    simp only [Function.comp_def, List.append_assoc]
  · rw [List.foldlM_append, hshift]
    exact hshift'

/-- The blanks between parts do not count. -/
theorem gap (h : ∀ c ∈ text, isGap c = true) (stack : List Part) : Takes text stack stack := by
  have hparts (rest : List Char) : parts? (text ++ rest) = parts? rest := by
    induction text with
    | nil => rfl
    | cons c text ih =>
      obtain ⟨hc, htext⟩ := List.forall_mem_cons.1 h
      rw [List.cons_append, parts?_gap hc, ih htext]
  refine ⟨[], fun rest => ?_, rfl⟩
  rw [hparts]
  exact (congrFun Option.map_id _).symm

theorem mark {c : Char} (hc : c ∈ marks) (h : shift stack (.mark c) = some stack') :
    Takes [c] stack stack' := by
  refine ⟨[.mark c], parts?_mark hc, ?_⟩
  rw [List.foldlM_cons, h]
  rfl

theorem value {v : Json} (h : ∀ rest, parts? (text ++ rest) = (parts? rest).map (.value v :: ·))
    (stack : List Part) : Takes text stack (push v stack) :=
  ⟨[.value v], h, rfl⟩

end Takes

/-! ## Strings -/

theorem coded?_low : ∀ n < 32, coded? ['0', '0', hexDigit (n / 16), hexDigit (n % 16)] =
    some (.ofNat n) := by
  decide

theorem partsAfter?_cons {c : Char} (hquote : c ≠ '"') (hback : c ≠ '\\') (hhigh : ¬ c.toNat < 0x20)
    (s : String) (cs : List Char) : partsAfter? s (c :: cs) = partsAfter? (s.push c) cs := by
  rw [partsAfter?]
  · rw [if_neg (not_or.2 ⟨hback, hhigh⟩)]
  · exact hquote
  · simp [hback]
  · simp [hback]

/-- An escaped character is read back. -/
theorem partsAfter?_escape (s : String) (c : Char) (rest : List Char) :
    partsAfter? s (escape c ++ rest) = partsAfter? (s.push c) rest := by
  unfold escape
  split
  case h_8 hquote hback _ _ _ _ _ =>
    split
    · next hlow =>
      have hcoded := coded?_low c.toNat hlow
      rw [Char.ofNat_toNat] at hcoded
      simp only [List.cons_append, List.nil_append, partsAfter?, hcoded, Option.bind_some]
    · next hhigh => exact partsAfter?_cons hquote hback hhigh s rest
  all_goals rfl

theorem partsAfter?_quoted (s : String) (cs rest : List Char) :
    partsAfter? s (cs.flatMap escape ++ '"' :: rest) =
      (parts? rest).map (.value (.string (s ++ .ofList cs)) :: ·) := by
  induction cs generalizing s with
  | nil => simp [partsAfter?]
  | cons c cs ih =>
    have hstring : s.push c ++ .ofList cs = s ++ .ofList (c :: cs) := by
      simp [← String.toList_inj]
    rw [List.flatMap_cons, List.append_assoc, partsAfter?_escape, ih, hstring]

theorem takes_quote (s : String) (stack : List Part) :
    Takes (quote s) stack (push (.string s) stack) := by
  refine Takes.value (fun rest => ?_) stack
  have htext : quote s ++ rest = '"' :: (s.toList.flatMap escape ++ '"' :: rest) := by
    simp [quote]
  rw [htext, parts?, partsAfter?_quoted, String.ofList_toList, String.empty_append]

/-! ## Brackets -/

theorem push_mark {c : Char} (hc : c ≠ ':') (v : Json) (stack : List Part) :
    push v (.mark c :: stack) = .value v :: .mark c :: stack := by
  simp [push, hc]

theorem takes_newline (depth : Nat) (stack : List Part) : Takes (newline depth) stack stack := by
  refine Takes.gap (List.forall_mem_cons.2 ⟨rfl, fun c hc => ?_⟩) stack
  rw [List.eq_of_mem_replicate hc]
  rfl

section

variable {α : Type} {left right : Char} {part : α → Part} {item? : Part → Option α}
  {make : List α → Json}

/-- Two brackets and the entries between them. -/
structure Brackets (left right : Char) (part : α → Part) (item? : Part → Option α)
    (make : List α → Json) : Prop where
  item?_part : ∀ a, item? (part a) = some a
  item?_mark : ∀ c, item? (.mark c) = none
  left_ne_comma : left ≠ ','
  left_mem_marks : left ∈ marks
  right_mem_marks : right ∈ marks
  shift_left : ∀ stack, shift stack (.mark left) = some (.mark left :: stack)
  shift_right : ∀ stack, shift stack (.mark right) =
    (close? left item? stack).map fun (as, stack) => push (make as) stack

theorem brackets_array : Brackets '[' ']' Part.value Part.value? array where
  item?_part _ := rfl
  item?_mark _ := rfl
  left_ne_comma := by decide
  left_mem_marks := by decide
  right_mem_marks := by decide
  shift_left _ := rfl
  shift_right _ := rfl

theorem brackets_object :
    Brackets '\x7b' '\x7d' (fun f => Part.field f.1 f.2) Part.field? object where
  item?_part _ := rfl
  item?_mark _ := rfl
  left_ne_comma := by decide
  left_mem_marks := by decide
  right_mem_marks := by decide
  shift_left _ := rfl
  shift_right _ := rfl

/-- A stack with one more entry, and a comma before it. -/
def add (part : α → Part) (stack : List Part) (a : α) : List Part := part a :: .mark ',' :: stack

/-- A text is taken for an entry where one is due: after the bracket on the left, or a comma. -/
def IsEntry (left : Char) (part : α → Part) (a : α) (text : List Char) : Prop :=
  ∀ c stack, c = left ∨ c = ',' → Takes text (.mark c :: stack) (part a :: .mark c :: stack)

/-- Entries on lines of their own, with commas between them. -/
theorem takes_entries {c : Char} {a : α} {as : List α} {text : List Char} {texts : List (List Char)}
    (ha : IsEntry left part a text) (has : List.Forall₂ (IsEntry left part) as texts)
    (hc : c = left ∨ c = ',') (depth : Nat) (stack : List Part) :
    Takes ([','].intercalate ((text :: texts).map (newline depth ++ ·))) (.mark c :: stack)
      (as.foldl (add part) (part a :: .mark c :: stack)) := by
  have hline {a : α} {text : List Char} (ha : IsEntry left part a text) (c : Char)
      (hc : c = left ∨ c = ',') (stack : List Part) :
      Takes (newline depth ++ text) (.mark c :: stack) (part a :: .mark c :: stack) :=
    (takes_newline depth _).append (ha c stack hc)
  induction has generalizing a text c stack with
  | nil =>
    rw [List.map_singleton, List.intercalate_singleton]
    exact hline ha c hc stack
  | cons hb has ih =>
    have hcomma : Takes [','] (part a :: .mark c :: stack)
        (.mark ',' :: part a :: .mark c :: stack) :=
      Takes.mark (by decide) rfl
    rw [List.map_cons, List.intercalate_cons_of_ne_nil (by simp)]
    exact ((hline ha c hc stack).append hcomma).append (ih hb (Or.inr rfl) _)

namespace Brackets

variable (h : Brackets left right part item? make)
include h

/-- Entries are taken off the stack as they were put on it. -/
theorem entries?_foldl (a : α) (as after : List α) (stack : List Part) :
    entries? left item? after (as.foldl (add part) (part a :: .mark left :: stack)) =
      some (a :: as ++ after, stack) := by
  induction as using List.reverseRecOn generalizing after with
  | nil => simp [entries?, h.item?_part]
  | append_singleton as b ih =>
    rw [List.foldl_append, List.foldl_cons, List.foldl_nil, add, entries?, h.item?_part,
      Option.bind_some, if_neg h.left_ne_comma.symm, if_pos rfl, ih, ← List.cons_append,
      List.append_assoc]
    rfl

theorem close?_of_entries? {stack : List Part} {result : List α × List Part}
    (hentries : entries? left item? [] stack = some result) :
    close? left item? stack = some result := by
  unfold close?
  split
  · next c stack =>
    -- No entry begins at a mark.
    cases stack with
    | nil => simp [entries?] at hentries
    | cons below stack => cases below <;> simp [entries?, h.item?_mark] at hentries
  · exact hentries

/-- What is written between two brackets is taken for a value. -/
theorem takes_bracket {as : List α} {texts : List (List Char)}
    (hentries : List.Forall₂ (IsEntry left part) as texts) (depth : Nat) (stack : List Part) :
    Takes (bracket left right depth texts) stack (push (make as) stack) := by
  have hleft : Takes [left] stack (.mark left :: stack) :=
    Takes.mark h.left_mem_marks (h.shift_left stack)
  cases hentries with
  | nil =>
    refine hleft.append (Takes.mark h.right_mem_marks ?_)
    rw [h.shift_right, close?, if_pos rfl, Option.map_some]
  | @cons a text as texts ha has =>
    have hright : Takes [right] (as.foldl (add part) (part a :: .mark left :: stack))
        (push (make (a :: as)) stack) := by
      refine Takes.mark h.right_mem_marks ?_
      rw [h.shift_right, h.close?_of_entries? (h.entries?_foldl a as [] stack), Option.map_some,
        List.append_nil]
    have hlines := takes_entries ha has (Or.inl rfl) (depth + 1) stack
    exact hleft.append ((hlines.append (takes_newline depth _)).append hright)

end Brackets

end

/-! ## Values -/

mutual

/-- A value that is written is taken for this value. -/
theorem takes_renderAt (depth : Nat) (stack : List Part) :
    (j : Json) → Takes (renderAt depth j) stack (push j stack)
  | bool true => Takes.value (fun _ => rfl) stack
  | bool false => Takes.value (fun _ => rfl) stack
  | string s => takes_quote s stack
  | array items => brackets_array.takes_bracket (isEntry_renderItems (depth + 1) items) depth stack
  | object fields =>
    brackets_object.takes_bracket (isEntry_renderFields (depth + 1) fields) depth stack

theorem isEntry_renderItems (depth : Nat) : (items : List Json) →
    List.Forall₂ (IsEntry '[' Part.value) items (renderItems depth items)
  | [] => .nil
  | item :: items => by
    refine .cons (fun c stack hc => ?_) (isEntry_renderItems depth items)
    have hitem := takes_renderAt depth (.mark c :: stack) item
    rwa [push_mark (by rintro rfl; simp at hc)] at hitem

theorem isEntry_renderFields (depth : Nat) : (fields : List (String × Json)) →
    List.Forall₂ (IsEntry '\x7b' fun f => Part.field f.1 f.2) fields (renderFields depth fields)
  | [] => .nil
  | field :: fields => .cons (isEntry_renderField depth field) (isEntry_renderFields depth fields)

theorem isEntry_renderField (depth : Nat) : (field : String × Json) →
    IsEntry '\x7b' (fun f => Part.field f.1 f.2) field (renderField depth field)
  | (name, value) => by
    intro c stack hc
    have hname := takes_quote name (.mark c :: stack)
    rw [push_mark (by rintro rfl; simp at hc)] at hname
    have hcolon : Takes [':'] (.value (.string name) :: .mark c :: stack)
        (.mark ':' :: .value (.string name) :: .mark c :: stack) :=
      Takes.mark (by decide) rfl
    have hspace : Takes [' '] (.mark ':' :: .value (.string name) :: .mark c :: stack)
        (.mark ':' :: .value (.string name) :: .mark c :: stack) :=
      Takes.gap (List.forall_mem_singleton.2 rfl) _
    have hvalue :=
      takes_renderAt depth (.mark ':' :: .value (.string name) :: .mark c :: stack) value
    have htext : renderField depth (name, value) =
        quote name ++ ([':'] ++ ([' '] ++ renderAt depth value)) := rfl
    rw [htext]
    exact hname.append (hcolon.append (hspace.append hvalue))

end

/-- A value that is written is read back, and blanks after it do not count. -/
theorem decode?_render_append (j : Json) {gap : String} (hgap : ∀ c ∈ gap.toList, isGap c = true) :
    decode? (j.render ++ gap) = some j := by
  obtain ⟨parts, hparts, hshift⟩ := (takes_renderAt 0 [] j).append (Takes.gap hgap (push j []))
  have hall : parts? (j.render ++ gap).toList = some parts := by
    have hempty := hparts []
    rw [List.append_nil, parts?, Option.map_some, List.append_nil] at hempty
    rw [String.toList_append, render, String.toList_ofList, hempty]
  rw [decode?, hall]
  simp [hshift, push]

/-- A value that is written is read back. -/
theorem decode?_render (j : Json) : decode? j.render = some j := by
  have hempty : decode? (j.render ++ "") = some j := decode?_render_append j (by simp)
  rwa [String.append_empty] at hempty

end Concord.Json
