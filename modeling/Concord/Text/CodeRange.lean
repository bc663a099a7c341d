/-!
# Ranges of code points

A property of characters is given as a list of ranges of code points, in increasing order and
apart from each other. Membership walks along the list and stops at the first range that begins
beyond the code point, so that letters with small code points are settled at once.

Main statement: `exists_of_inRanges`, a code point found by the walk lies in a listed range.
-/

namespace Concord.Text

/-- The code points from `first` to `last`, both included. -/
structure CodeRange where
  first : Nat
  last : Nat
  deriving DecidableEq, Repr

/-- Whether `n` lies in one of the ranges, which are in increasing order. -/
def inRanges (n : Nat) : List CodeRange → Bool
  | [] => false
  | r :: rs => if n < r.first then false else n ≤ r.last || inRanges n rs

theorem exists_of_inRanges {n : Nat} {rs : List CodeRange} (h : inRanges n rs = true) :
    ∃ r ∈ rs, r.first ≤ n ∧ n ≤ r.last := by
  induction rs with
  | nil => simp [inRanges] at h
  | cons r rs ih =>
    by_cases hlt : n < r.first
    · simp [inRanges, hlt] at h
    · by_cases hle : n ≤ r.last
      · exact ⟨r, by simp, by omega, hle⟩
      · have hrest : inRanges n rs = true := by simpa [inRanges, hlt, hle] using h
        obtain ⟨s, hs, hmem⟩ := ih hrest
        exact ⟨s, by simp [hs], hmem⟩

end Concord.Text
