/-!
# Padding

Text in columns: a value is filled up to the width of its column, counted in characters, and never
cut unless a precision asks for it.
-/

namespace Concord.Text

/-- Where a text stands in a wider field. -/
inductive Alignment where
  | left
  | right
  | center
  deriving DecidableEq, Repr

/-- A text in a field of at least `width` characters. In the centre, the odd one of the filling
characters stands on the right. -/
def pad (fill : Char) (align : Alignment) (width : Nat) (s : String) : String :=
  let gap := width - s.length
  let before := match align with
    | .left => 0
    | .right => gap
    | .center => gap / 2
  .ofList (List.replicate before fill ++ s.toList ++ List.replicate (gap - before) fill)

/-- The first `precision` characters of a text, or all of it. -/
def cut (precision : Option Nat) (s : String) : String :=
  match precision with
  | none => s
  | some p => .ofList (s.toList.take p)

/-- A column: what its values are filled up with, where they stand in it, how wide it is, and to how
many characters they are cut. -/
structure Column where
  fill : Char
  align : Alignment
  width : Nat
  precision : Option Nat

/-- A value in its column. It is cut before it is filled up. -/
def Column.set (c : Column) (s : String) : String := pad c.fill c.align c.width (cut c.precision s)

/-- Without a precision a value is filled up only. -/
@[simp] theorem Column.set_uncut (fill : Char) (align : Alignment) (width : Nat) (s : String) :
    (⟨fill, align, width, none⟩ : Column).set s = pad fill align width s := rfl

end Concord.Text
