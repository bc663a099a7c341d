import Concord.Text.Lowercase

/-!
# Lower-case forms

What a letter becomes in lower case is *lowered*: it stays as it is wherever it stands, so that a
text in lower case is its own lower-case form. This holds although one letter may become two and a
sigma becomes what its place demands, because all the letters they become have no form of their own.
For the letters of the table it is read off by comparing the forms of a range with the letters of
the others (`isSettled`).

Main statements: `mem_or_within_of_mem_lowercase`, a text in lower case holds nothing but its own
characters and forms; `lowerBy_lowerBy`, no form of the table has another form;
`lowered_of_mem_lowercase` and `lowercase_lowercase`, lower-casing twice comes to lower-casing once.
-/

namespace Concord.Text

/-! ## Comparing ranges -/

/-- Code point `n` lies in one of the ranges. -/
def Within (n : Nat) (rs : List CodeRange) : Prop := ∃ r ∈ rs, r.first ≤ n ∧ n ≤ r.last

/-- No range of the one list overlaps a range of the other. -/
def Apart (rs ss : List CodeRange) : Prop :=
  ∀ r ∈ rs, ∀ s ∈ ss, r.last < s.first ∨ s.last < r.first

instance (rs ss : List CodeRange) : Decidable (Apart rs ss) :=
  inferInstanceAs (Decidable (∀ r ∈ rs, ∀ s ∈ ss, r.last < s.first ∨ s.last < r.first))

theorem Apart.not_within {n : Nat} {rs ss : List CodeRange} (h : Apart rs ss) (hn : Within n rs) :
    ¬ Within n ss := by
  intro hn'
  obtain ⟨r, hr, hfirst, hlast⟩ := hn
  obtain ⟨s, hs, hfirst', hlast'⟩ := hn'
  have hapart := h r hr s hs
  omega

theorem Apart.inRanges_eq_false {n : Nat} {rs ss : List CodeRange} (h : Apart rs ss)
    (hn : Within n rs) : inRanges n ss = false := by
  cases hss : inRanges n ss with
  | false => rfl
  | true => exact absurd (exists_of_inRanges hss) (h.not_within hn)

/-! ## The table of lower-case forms -/

/-- The letters of a range of the table. -/
def LowerRange.letters (r : LowerRange) : CodeRange := ⟨r.first, r.last⟩

/-- The code points from the first to the last lower-case form of a range. -/
def LowerRange.forms (r : LowerRange) : CodeRange := ⟨r.target, r.target + (r.last - r.first)⟩

/-- The range gives a lower-case form to code point `n`. -/
def LowerRange.Lists (r : LowerRange) (n : Nat) : Prop :=
  r.first ≤ n ∧ n ≤ r.last ∧ (n - r.first) % r.step = 0

/-- The lower-case form that a range gives to code point `n`. -/
def LowerRange.form (r : LowerRange) (n : Nat) : Nat := r.target + (n - r.first)

theorem LowerRange.Lists.form_bounds {r : LowerRange} {n : Nat} (h : r.Lists n) :
    r.target ≤ r.form n ∧ r.form n ≤ r.target + (r.last - r.first) := by
  have hlast := h.2.1
  unfold form
  omega

/-- A code point is kept, or a range of the table lists it and gives the form. -/
theorem lowerBy_eq_or_lists (n : Nat) (table : List LowerRange) :
    lowerBy n table = n ∨ ∃ r ∈ table, r.Lists n ∧ lowerBy n table = r.form n := by
  induction table with
  | nil => exact Or.inl rfl
  | cons r rs ih =>
    rw [lowerBy]
    split
    · exact Or.inl rfl
    · next hfirst =>
      split
      · next hlast =>
        split
        · next hstep =>
          exact Or.inr ⟨r, List.mem_cons_self, ⟨Nat.le_of_not_lt hfirst, hlast, hstep⟩, rfl⟩
        · exact Or.inl rfl
      · refine ih.imp_right fun hlisted => ?_
        obtain ⟨s, hs, hform⟩ := hlisted
        exact ⟨s, List.mem_cons_of_mem _ hs, hform⟩

theorem lowerBy_eq_self {n : Nat} {table : List LowerRange}
    (h : ¬ Within n (table.map LowerRange.letters)) : lowerBy n table = n := by
  rcases lowerBy_eq_or_lists n table with hkept | ⟨r, hr, hlists, -⟩
  · exact hkept
  · exact absurd ⟨r.letters, List.mem_map_of_mem hr, hlists.1, hlists.2.1⟩ h

/-- A code point is kept or becomes one of the forms of the table. -/
theorem lowerBy_eq_or_within (n : Nat) (table : List LowerRange) :
    lowerBy n table = n ∨ Within (lowerBy n table) (table.map LowerRange.forms) := by
  refine (lowerBy_eq_or_lists n table).imp_right fun hlisted => ?_
  obtain ⟨r, hr, hlists, hform⟩ := hlisted
  exact ⟨r.forms, List.mem_map_of_mem hr, hform ▸ hlists.form_bounds⟩

/-- A number that is no code point of a character stands for U+0000. -/
theorem toNat_ofNat_eq_or (n : Nat) : (Char.ofNat n).toNat = n ∨ (Char.ofNat n).toNat = 0 := by
  by_cases hvalid : n.isValidChar
  · rw [Char.ofNat, dif_pos hvalid]
    exact Or.inl rfl
  · rw [Char.ofNat, dif_neg hvalid]
    exact Or.inr rfl

/-- What letters become by other rules than the table. U+0000 stands for a form of the table that is
no character. -/
def specialForms : List CodeRange := [⟨0, 0⟩, ⟨0x69, 0x69⟩, ⟨0x307, 0x307⟩, ⟨0x3C2, 0x3C3⟩]

/-- The code points of all that letters become. -/
def formRanges : List CodeRange := lowerTable.map LowerRange.forms ++ specialForms

/-- A character is kept or becomes a form. -/
theorem eq_or_within_of_mem_lowerChar {before : Bool} {c x : Char} {after : List Char}
    (h : x ∈ lowerChar before c after) : x = c ∨ Within x.toNat formRanges := by
  have hspecial {y : Char} (r : CodeRange) (hr : r ∈ specialForms) (hfirst : r.first ≤ y.toNat)
      (hlast : y.toNat ≤ r.last) : y = c ∨ Within y.toNat formRanges :=
    Or.inr ⟨r, List.mem_append_right _ hr, hfirst, hlast⟩
  unfold lowerChar at h
  split at h
  · rw [List.mem_singleton] at h
    subst h
    split <;> exact hspecial ⟨0x3C2, 0x3C3⟩ (by decide) (by decide) (by decide)
  · split at h
    · simp only [List.mem_cons, List.not_mem_nil, or_false] at h
      rcases h with rfl | rfl
      · exact hspecial ⟨0x69, 0x69⟩ (by decide) (by decide) (by decide)
      · exact hspecial ⟨0x307, 0x307⟩ (by decide) (by decide) (by decide)
    · rw [List.mem_singleton] at h
      subst h
      rcases lowerBy_eq_or_within c.toNat lowerTable with hkept | ⟨r, hr, hform⟩
      · rw [hkept, Char.ofNat_toNat]
        exact Or.inl rfl
      · rcases toNat_ofNat_eq_or (lowerBy c.toNat lowerTable) with hcode | hcode
        · exact Or.inr ⟨r, List.mem_append_left _ hr, hcode.symm ▸ hform⟩
        · exact hspecial ⟨0, 0⟩ (by decide) (Nat.zero_le _) (Nat.le_of_eq hcode)

theorem mem_or_within_of_mem_lowercaseAfter {before : Bool} {cs : List Char} {x : Char}
    (h : x ∈ lowercaseAfter before cs) : x ∈ cs ∨ Within x.toNat formRanges := by
  induction cs generalizing before with
  | nil => exact absurd h List.not_mem_nil
  | cons c cs ih =>
    rw [lowercaseAfter, List.mem_append] at h
    rcases h with hchar | hrest
    · exact (eq_or_within_of_mem_lowerChar hchar).imp_left fun hx => List.mem_cons.2 (Or.inl hx)
    · exact (ih hrest).imp_left (List.mem_cons_of_mem c)

/-- A character of a text in lower case stands in the text or is a form. -/
theorem mem_or_within_of_mem_lowercase {cs : List Char} {x : Char} (h : x ∈ lowercase cs) :
    x ∈ cs ∨ Within x.toNat formRanges :=
  mem_or_within_of_mem_lowercaseAfter h

/-! ## Forms have no forms -/

/-- The forms of range `r` lie between the steps of range `s`. -/
def LowerRange.Misses (r s : LowerRange) : Prop :=
  (r.first = r.last ∨ r.step % s.step = 0) ∧ r.target % s.step ≠ s.first % s.step

instance (r s : LowerRange) : Decidable (r.Misses s) := inferInstanceAs (Decidable (_ ∧ _))

/-- No form of range `r` has a form by a table in increasing order: ranges before the forms are
passed over, the first one beyond them ends the walk, and what lies between must be missed. -/
def LowerRange.isSettled (r : LowerRange) : List LowerRange → Bool
  | [] => true
  | s :: ss =>
    if s.last < r.target then r.isSettled ss
    else if r.target + (r.last - r.first) < s.first then true
    else r.Misses s && r.isSettled ss

theorem LowerRange.Misses.not_step {r s : LowerRange} {n : Nat} (h : r.Misses s) (hn : r.Lists n)
    (hfirst : s.first ≤ r.form n) : (r.form n - s.first) % s.step ≠ 0 := by
  intro hform
  obtain ⟨hsteps, hresidue⟩ := h
  obtain ⟨_, hlast, hstep⟩ := hn
  have hdvd : s.step ∣ n - r.first := by
    rcases hsteps with hsingle | hsteps
    · have hzero : n - r.first = 0 := by omega
      rw [hzero]
      exact Nat.dvd_zero _
    · exact Nat.dvd_trans (Nat.dvd_of_mod_eq_zero hsteps) (Nat.dvd_of_mod_eq_zero hstep)
  -- The forms leave the remainder of the target, the letters that of the first.
  obtain ⟨k, hk⟩ := hdvd
  obtain ⟨j, hj⟩ := Nat.dvd_of_mod_eq_zero hform
  refine hresidue ?_
  calc r.target % s.step
      = r.form n % s.step := by rw [form, hk, Nat.add_mul_mod_self_left]
    _ = (s.first + s.step * j) % s.step := by rw [← hj, Nat.add_sub_of_le hfirst]
    _ = s.first % s.step := Nat.add_mul_mod_self_left _ _ _

theorem lowerBy_form {r : LowerRange} {n : Nat} (hn : r.Lists n) {table : List LowerRange}
    (h : r.isSettled table = true) : lowerBy (r.form n) table = r.form n := by
  have hbounds := hn.form_bounds
  -- Both walks go through the table together; only ranges that overlap the forms need `Misses`.
  induction table with
  | nil => rfl
  | cons s ss ih =>
    rw [lowerBy]
    rw [LowerRange.isSettled] at h
    split
    · rfl
    · next hfirst =>
      split
      · next hlast =>
        rw [if_neg (by omega), if_neg (by omega), Bool.and_eq_true, decide_eq_true_iff] at h
        rw [if_neg (h.1.not_step hn (Nat.le_of_not_lt hfirst))]
      · next hlast =>
        by_cases hbefore : s.last < r.target
        · rw [if_pos hbefore] at h
          exact ih h
        · rw [if_neg hbefore, if_neg (by omega), Bool.and_eq_true] at h
          exact ih h.2

theorem isSettled_lowerTable : ∀ r ∈ lowerTable, r.isSettled lowerTable = true := by
  decide +kernel

theorem lowerBy_lowerBy (n : Nat) :
    lowerBy (lowerBy n lowerTable) lowerTable = lowerBy n lowerTable := by
  rcases lowerBy_eq_or_lists n lowerTable with hkept | ⟨r, hr, hlists, hform⟩
  · rw [hkept, hkept]
  · rw [hform]
    exact lowerBy_form hlists (isSettled_lowerTable r hr)

/-! ## Lowered characters -/

/-- A character that is its own lower-case form, wherever it stands. -/
def Lowered (c : Char) : Prop :=
  ∀ (before : Bool) (after : List Char), lowerChar before c after = [c]

theorem lowered_of_lowerBy_eq {c : Char} (h : lowerBy c.toNat lowerTable = c.toNat) :
    Lowered c := by
  intro before after
  have hsigma : c ≠ 'Σ' := by
    rintro rfl
    exact absurd h (by decide +kernel)
  have hdotted : c ≠ 'İ' := by
    rintro rfl
    exact absurd h (by decide +kernel)
  rw [lowerChar, if_neg hsigma, if_neg hdotted, h, Char.ofNat_toNat]

/-- A character that the table does not list is lowered. -/
theorem lowered_of_not_listed {c : Char}
    (h : ¬ Within c.toNat (lowerTable.map LowerRange.letters)) : Lowered c :=
  lowered_of_lowerBy_eq (lowerBy_eq_self h)

theorem lowered_of_mem_lowerChar {before : Bool} {c x : Char} {after : List Char}
    (h : x ∈ lowerChar before c after) : Lowered x := by
  unfold lowerChar at h
  split at h
  · rw [List.mem_singleton] at h
    subst h
    split <;> exact lowered_of_lowerBy_eq (by decide +kernel)
  · split at h
    · simp only [List.mem_cons, List.not_mem_nil, or_false] at h
      rcases h with rfl | rfl <;> exact lowered_of_lowerBy_eq (by decide +kernel)
    · rw [List.mem_singleton] at h
      subst h
      refine lowered_of_lowerBy_eq ?_
      rcases toNat_ofNat_eq_or (lowerBy c.toNat lowerTable) with hcode | hcode
      · rw [hcode, lowerBy_lowerBy]
      · rw [hcode]
        decide +kernel

theorem lowered_of_mem_lowercaseAfter {before : Bool} {cs : List Char} {x : Char}
    (h : x ∈ lowercaseAfter before cs) : Lowered x := by
  induction cs generalizing before with
  | nil => exact absurd h List.not_mem_nil
  | cons c cs ih =>
    rw [lowercaseAfter, List.mem_append] at h
    rcases h with hchar | hrest
    · exact lowered_of_mem_lowerChar hchar
    · exact ih hrest

/-- Every character of a text in lower case is lowered. -/
theorem lowered_of_mem_lowercase {cs : List Char} {x : Char} (h : x ∈ lowercase cs) : Lowered x :=
  lowered_of_mem_lowercaseAfter h

/-- A text of lowered characters is its own lower-case form. -/
theorem lowercase_of_lowered {cs : List Char} (h : ∀ c ∈ cs, Lowered c) : lowercase cs = cs := by
  have hafter (before : Bool) : lowercaseAfter before cs = cs := by
    induction cs generalizing before with
    | nil => rfl
    | cons c cs ih =>
      obtain ⟨hc, hcs⟩ := List.forall_mem_cons.1 h
      rw [lowercaseAfter, hc, ih hcs]
      rfl
  exact hafter false

/-- A text without letters of the table is its own lower-case form. -/
theorem lowercase_of_not_listed {cs : List Char}
    (h : ∀ c ∈ cs, ¬ Within c.toNat (lowerTable.map LowerRange.letters)) : lowercase cs = cs :=
  lowercase_of_lowered fun c hc => lowered_of_not_listed (h c hc)

/-- Lower-casing twice comes to lower-casing once. -/
theorem lowercase_lowercase (cs : List Char) : lowercase (lowercase cs) = lowercase cs :=
  lowercase_of_lowered fun _ hc => lowered_of_mem_lowercase hc

-- The first sigma is inside the word and the second at its end; the dotted capital becomes two.
example : lowercase "ΣΟΣ İ".toList = "σος i\u0307".toList := by decide +kernel

end Concord.Text
