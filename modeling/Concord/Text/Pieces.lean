import Concord.Text.Blank

/-!
# Cutting text

Words, lines and fields are all cut in the same way: `pieces` cuts a list at every element that
satisfies a test and leaves that element out. A text with `n` such elements has `n + 1` pieces,
some of them possibly empty.

Main statements: `pieces_append`, cutting at a break cuts the texts around it on their own;
`words_append`, the same for words; `not_break_of_mem_pieces`, no piece holds a break.
-/

namespace Concord.Text

variable {α : Type}

/-- The parts of a list between the elements that satisfy `isBreak`. -/
def pieces (isBreak : α → Bool) (as : List α) : List (List α) :=
  as.foldr (fun a ps => if isBreak a then [] :: ps else ps.modifyHead (a :: ·)) [[]]

@[simp] theorem pieces_nil (p : α → Bool) : pieces p [] = [[]] := rfl

theorem pieces_cons (p : α → Bool) (a : α) (as : List α) :
    pieces p (a :: as) = if p a then [] :: pieces p as else (pieces p as).modifyHead (a :: ·) := rfl

theorem pieces_ne_nil (p : α → Bool) (as : List α) : pieces p as ≠ [] := by
  induction as with
  | nil => simp
  | cons a as ih =>
    rw [pieces_cons]
    split
    · simp
    · cases h : pieces p as with
      | nil => exact absurd h ih
      | cons q qs => simp

/-- Cutting at a break that stands between two texts cuts each text on its own. -/
theorem pieces_append (p : α → Bool) (as bs : List α) {b : α} (hb : p b = true) :
    pieces p (as ++ b :: bs) = pieces p as ++ pieces p bs := by
  induction as with
  | nil => simp [pieces_cons, hb]
  | cons a as ih =>
    simp only [List.cons_append, pieces_cons, ih]
    split
    · rfl
    · cases h : pieces p as with
      | nil => exact absurd h (pieces_ne_nil p as)
      | cons q qs => simp

/-- No piece holds a break. -/
theorem not_break_of_mem_pieces {p : α → Bool} {as q : List α} (hq : q ∈ pieces p as) :
    ∀ a ∈ q, p a = false := by
  induction as generalizing q with
  | nil => simp_all
  | cons a as ih =>
    rw [pieces_cons] at hq
    split at hq
    · rcases List.mem_cons.1 hq with rfl | hq
      · simp
      · exact ih hq
    · cases h : pieces p as with
      | nil => exact absurd h (pieces_ne_nil p as)
      | cons r rs =>
        rw [h] at hq ih
        simp only [List.modifyHead_cons, List.mem_cons] at hq
        rcases hq with rfl | hq
        · intro b hb
          rcases List.mem_cons.1 hb with rfl | hb
          · simp_all
          · exact ih (by simp) b hb
        · exact ih (by simp [hq])

/-- The maximal runs of characters that are not blank. -/
def words (cs : List Char) : List (List Char) := (pieces isBlank cs).filter (!·.isEmpty)

/-- A blank between two texts keeps their words apart. -/
theorem words_append (as bs : List Char) {c : Char} (hc : isBlank c = true) :
    words (as ++ c :: bs) = words as ++ words bs := by
  rw [words, pieces_append isBlank as bs hc, List.filter_append]
  rfl

/-- A list without the elements satisfying `p` at its two ends. -/
def strip (p : α → Bool) (as : List α) : List α :=
  ((as.dropWhile p).reverse.dropWhile p).reverse

/-- A text without the blanks at its two ends. -/
def trim (cs : List Char) : List Char := strip isBlank cs

/-- A line without one carriage return at its end. -/
def dropReturn [BEq α] (cr : α) (line : List α) : List α :=
  if line.getLast? == some cr then line.dropLast else line

/-- The lines of a text. A line feed ends a line, and one carriage return just before it belongs to
the line end. What follows the last line feed is a line only when it is not empty, and keeps its
carriage return. -/
def lines [BEq α] (lf cr : α) (as : List α) : List (List α) :=
  let ps := pieces (· == lf) as
  ps.dropLast.map (dropReturn cr) ++ ps.getLast?.toList.filter (!·.isEmpty)

/-- Some lines as a text, each with its line feed. -/
def unlines (lines : List String) : String :=
  .ofList (lines.flatMap fun line => line.toList ++ ['\n'])

end Concord.Text
