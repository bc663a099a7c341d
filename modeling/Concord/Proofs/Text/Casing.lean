import Concord.Token
import Concord.Proofs.Text.Cutting
import Concord.Proofs.Text.LowerForms

/-!
# Lower-casing around delimiters

The lower-case form of a letter can depend on the letters around it, so the parts of a text cannot
in general be lower-cased on their own. They can be at *delimiters*: blanks, the comma and the
stops. No delimiter is cased, has a lower-case form or is one, and no blank is passed over in search
of a cased letter. All this is read off the tables by comparing ranges (`Apart`).

Main statements: `lowercase_append_blank`, a blank separates what is lower-cased; `strip_lowercase`,
stops around a word do not change its lower-case form.
-/

namespace Concord.Text

/-! ## Delimiters -/

/-- Whether a character can stand beside a word: a blank, the comma or a stop. -/
def isDelimiter (c : Char) : Bool := isBlank c || c == ',' || isStop c

/-- The code points of the delimiters. -/
def delimiterRanges : List CodeRange :=
  blankRanges ++ [⟨0x21, 0x21⟩, ⟨0x2C, 0x2C⟩, ⟨0x2E, 0x2E⟩, ⟨0x3F, 0x3F⟩]

theorem within_of_isDelimiter {c : Char} (h : isDelimiter c = true) :
    Within c.toNat delimiterRanges := by
  have hc : isBlank c = true ∨ c = ',' ∨ c = '.' ∨ c = '!' ∨ c = '?' := by
    simpa [isDelimiter, isStop, or_assoc] using h
  rcases hc with hblank | rfl | rfl | rfl | rfl
  · obtain ⟨r, hr, hbounds⟩ := exists_of_inRanges hblank
    exact ⟨r, List.mem_append_left _ hr, hbounds⟩
  · exact ⟨⟨0x2C, 0x2C⟩, by decide, by decide⟩
  · exact ⟨⟨0x2E, 0x2E⟩, by decide, by decide⟩
  · exact ⟨⟨0x21, 0x21⟩, by decide, by decide⟩
  · exact ⟨⟨0x3F, 0x3F⟩, by decide, by decide⟩

theorem isDelimiter_eq_false_iff {c : Char} :
    isDelimiter c = false ↔ isBlank c = false ∧ c ≠ ',' ∧ isStop c = false := by
  simp [isDelimiter, and_assoc]

theorem isDelimiter_of_isBlank {c : Char} (h : isBlank c = true) : isDelimiter c = true := by
  simp [isDelimiter, h]

theorem isDelimiter_of_isStop {c : Char} (h : isStop c = true) : isDelimiter c = true := by
  simp [isDelimiter, h]

theorem isCased_of_isDelimiter {c : Char} (h : isDelimiter c = true) : isCased c = false := by
  have hapart : Apart delimiterRanges casedRanges := by decide +kernel
  exact hapart.inRanges_eq_false (within_of_isDelimiter h)

theorem isCaseIgnorable_of_isBlank {c : Char} (h : isBlank c = true) :
    isCaseIgnorable c = false := by
  have hapart : Apart blankRanges ignorableRanges := by decide +kernel
  exact hapart.inRanges_eq_false (exists_of_inRanges h)

/-- A delimiter is its own lower-case form. -/
theorem lowerChar_of_isDelimiter {c : Char} (h : isDelimiter c = true) (before : Bool)
    (after : List Char) : lowerChar before c after = [c] := by
  have hapart : Apart delimiterRanges (lowerTable.map LowerRange.letters) := by decide +kernel
  exact lowered_of_not_listed (hapart.not_within (within_of_isDelimiter h)) before after

/-- No form is a delimiter. -/
theorem isDelimiter_of_form {c : Char} (h : Within c.toNat formRanges) : isDelimiter c = false := by
  have hapart : Apart formRanges delimiterRanges := by decide +kernel
  rw [← Bool.not_eq_true]
  exact fun hdelimiter => hapart.not_within h (within_of_isDelimiter hdelimiter)

/-- Lower-casing makes no delimiters. -/
theorem mem_lowerChar {before : Bool} {c x : Char} {after : List Char}
    (h : x ∈ lowerChar before c after) : x = c ∨ isDelimiter x = false :=
  (eq_or_within_of_mem_lowerChar h).imp_right isDelimiter_of_form

/-! ## Contexts -/

/-- Where no cased letter follows, the end of a text sees what it sees at the end. -/
theorem beginsCased_append {us vs : List Char} (hvs : beginsCased vs = false) :
    beginsCased (us ++ vs) = beginsCased us := by
  induction us with
  | nil => exact hvs
  | cons c us ih => rw [List.cons_append, beginsCased, beginsCased, ih]

/-- A letter sees of what follows it only whether that begins cased. -/
theorem lowerChar_congr {us vs : List Char} (h : beginsCased us = beginsCased vs) (before : Bool)
    (c : Char) : lowerChar before c us = lowerChar before c vs := by
  unfold lowerChar
  rw [h]

/-- A text is lower-cased apart from one after it that does not begin cased. -/
theorem lowercaseAfter_append {us vs : List Char} (before : Bool)
    (hvs : beginsCased vs = false) :
    lowercaseAfter before (us ++ vs) =
      lowercaseAfter before us ++ lowercaseAfter (us.foldl endsCased before) vs := by
  induction us generalizing before with
  | nil => rfl
  | cons c us ih =>
    rw [List.cons_append, lowercaseAfter, lowercaseAfter, lowerChar_congr (beginsCased_append hvs),
      ih, List.append_assoc]
    rfl

/-- A delimiter across which no letter sees another. -/
structure Parting (c : Char) : Prop where
  delimiter : isDelimiter c = true
  seen : isCaseIgnorable c = false

theorem parting_of_isBlank {c : Char} (h : isBlank c = true) : Parting c :=
  ⟨isDelimiter_of_isBlank h, isCaseIgnorable_of_isBlank h⟩

theorem parting_comma : Parting ',' where
  delimiter := by decide
  seen := by decide +kernel

namespace Parting

variable {c : Char}

theorem beginsCased (h : Parting c) (cs : List Char) : beginsCased (c :: cs) = false := by
  simp [Text.beginsCased, h.seen, isCased_of_isDelimiter h.delimiter]

/-- What follows is lower-cased as if nothing stood before it. -/
theorem lowercaseAfter (h : Parting c) (before : Bool) (cs : List Char) :
    lowercaseAfter before (c :: cs) = c :: lowercase cs := by
  have hends : endsCased before c = false := by
    simp [endsCased, h.seen, isCased_of_isDelimiter h.delimiter]
  rw [Text.lowercaseAfter, lowerChar_of_isDelimiter h.delimiter, hends]
  rfl

end Parting

/-- A blank separates what is lower-cased. -/
theorem lowercase_append_blank (us vs : List Char) {c : Char} (hc : isBlank c = true) :
    lowercase (us ++ c :: vs) = lowercase us ++ c :: lowercase vs := by
  have hparting := parting_of_isBlank hc
  unfold lowercase
  rw [lowercaseAfter_append false (hparting.beginsCased vs), hparting.lowercaseAfter]
  rfl

theorem lowercase_cons_blank (cs : List Char) {c : Char} (hc : isBlank c = true) :
    lowercase (c :: cs) = c :: lowercase cs := lowercase_append_blank [] cs hc

/-! ## Stops -/

variable {stops : List Char}

theorem beginsCased_stops (h : ∀ c ∈ stops, isStop c = true) : beginsCased stops = false := by
  induction stops with
  | nil => rfl
  | cons c stops ih =>
    obtain ⟨hc, hstops⟩ := List.forall_mem_cons.1 h
    rw [beginsCased, isCased_of_isDelimiter (isDelimiter_of_isStop hc), ih hstops]
    simp

/-- Stops stay as they are. -/
theorem lowercaseAfter_stops (before : Bool) (h : ∀ c ∈ stops, isStop c = true) :
    lowercaseAfter before stops = stops := by
  induction stops generalizing before with
  | nil => rfl
  | cons c stops ih =>
    obtain ⟨hc, hstops⟩ := List.forall_mem_cons.1 h
    rw [lowercaseAfter, lowerChar_of_isDelimiter (isDelimiter_of_isStop hc), ih _ hstops]
    rfl

/-- Stops at the beginning are not seen by what follows them. -/
theorem lowercase_stops_append (h : ∀ c ∈ stops, isStop c = true) (us : List Char) :
    lowercase (stops ++ us) = stops ++ lowercase us := by
  induction stops with
  | nil => rfl
  | cons c stops ih =>
    obtain ⟨hc, hstops⟩ := List.forall_mem_cons.1 h
    have hdelimiter := isDelimiter_of_isStop hc
    have hends : endsCased false c = false := by
      simp [endsCased, isCased_of_isDelimiter hdelimiter]
    have hrest := ih hstops
    unfold lowercase at hrest ⊢
    rw [List.cons_append, lowercaseAfter, lowerChar_of_isDelimiter hdelimiter, hends, hrest]
    rfl

/-- Stops at the end are not seen by what stands before them. -/
theorem lowercase_append_stops (h : ∀ c ∈ stops, isStop c = true) (us : List Char) :
    lowercase (us ++ stops) = lowercase us ++ stops := by
  unfold lowercase
  rw [lowercaseAfter_append false (beginsCased_stops h), lowercaseAfter_stops _ h]

/-! ## Characters of a lower-case form -/

theorem lowerChar_ne_nil (before : Bool) (c : Char) (after : List Char) :
    lowerChar before c after ≠ [] := by
  unfold lowerChar
  split
  · simp
  · split <;> simp

theorem mem_lowercaseAfter {before : Bool} {cs : List Char} {x : Char}
    (h : x ∈ lowercaseAfter before cs) : x ∈ cs ∨ isDelimiter x = false :=
  (mem_or_within_of_mem_lowercaseAfter h).imp_right isDelimiter_of_form

/-- Lower-casing keeps the delimiters. -/
theorem mem_lowercase_of_isDelimiter {cs : List Char} {c : Char} (h : c ∈ cs)
    (hc : isDelimiter c = true) : c ∈ lowercase cs := by
  have hafter (before : Bool) : c ∈ lowercaseAfter before cs := by
    induction cs generalizing before with
    | nil => exact absurd h List.not_mem_nil
    | cons d cs ih =>
      rw [lowercaseAfter, List.mem_append]
      rcases List.mem_cons.1 h with rfl | hmem
      · rw [lowerChar_of_isDelimiter hc]
        exact Or.inl (List.mem_singleton_self c)
      · exact Or.inr (ih hmem _)
  exact hafter false

/-- A text without blanks has none in lower case. -/
theorem not_blank_lowercase {cs : List Char} (h : ∀ c ∈ cs, isBlank c = false) :
    ∀ c ∈ lowercase cs, isBlank c = false := by
  intro c hc
  rcases mem_lowercaseAfter hc with hmem | hdelimiter
  · exact h c hmem
  · exact (isDelimiter_eq_false_iff.1 hdelimiter).1

/-- A text in lower case begins with the lower-case form of its first character. -/
theorem exists_head?_lowercase {cs : List Char} {x : Char} (h : (lowercase cs).head? = some x) :
    ∃ c after, cs.head? = some c ∧ x ∈ lowerChar false c after := by
  cases cs with
  | nil => simp at h
  | cons c cs =>
    obtain ⟨y, ys, hform⟩ := List.exists_cons_of_ne_nil (lowerChar_ne_nil false c cs)
    rw [lowercase, lowercaseAfter, hform] at h
    refine ⟨c, cs, rfl, ?_⟩
    rw [hform, ← Option.some.inj h]
    exact List.mem_cons_self

/-- The lower-case form of the last character comes last. -/
theorem exists_lowercaseAfter_snoc (before : Bool) (cs : List Char) (c : Char) :
    ∃ front last, lowercaseAfter before (cs ++ [c]) = front ++ lowerChar last c [] := by
  induction cs generalizing before with
  | nil => exact ⟨[], before, by simp [lowercaseAfter]⟩
  | cons d cs ih =>
    obtain ⟨front, last, hfront⟩ := ih (endsCased before d)
    refine ⟨lowerChar before d (cs ++ [c]) ++ front, last, ?_⟩
    rw [List.cons_append, lowercaseAfter, hfront, List.append_assoc]

theorem exists_getLast?_lowercase {cs : List Char} {x : Char}
    (h : (lowercase cs).getLast? = some x) :
    ∃ before c, cs.getLast? = some c ∧ x ∈ lowerChar before c [] := by
  obtain rfl | ⟨front, c, rfl⟩ := List.eq_nil_or_concat cs
  · simp at h
  · obtain ⟨start, before, hstart⟩ := exists_lowercaseAfter_snoc false front c
    have hne := lowerChar_ne_nil before c []
    rw [List.concat_eq_append, lowercase, hstart, List.getLast?_append,
      List.getLast?_eq_some_getLast hne] at h
    refine ⟨before, c, by simp, ?_⟩
    rw [← Option.some.inj h]
    exact List.getLast_mem hne

/-- Lower-casing makes nothing that could be taken off at the ends, if no form could. -/
theorem trimmed_lowercase {p : Char → Bool} (hforms : ∀ c, Within c.toNat formRanges → p c = false)
    {cs : List Char} (h : Trimmed p cs) : Trimmed p (lowercase cs) := by
  have hchar {before : Bool} {c x : Char} {after : List Char} (hx : x ∈ lowerChar before c after)
      (hc : p c = false) : p x = false := by
    rcases eq_or_within_of_mem_lowerChar hx with rfl | hform
    · exact hc
    · exact hforms x hform
  refine ⟨fun x hx => ?_, fun x hx => ?_⟩
  · obtain ⟨c, after, hhead, hmem⟩ := exists_head?_lowercase hx
    exact hchar hmem (h.1 c hhead)
  · obtain ⟨before, c, hlast, hmem⟩ := exists_getLast?_lowercase hx
    exact hchar hmem (h.2 c hlast)

theorem trimmed_isStop_lowercase {cs : List Char} (h : Trimmed isStop cs) :
    Trimmed isStop (lowercase cs) :=
  trimmed_lowercase
    (fun _ hform => (isDelimiter_eq_false_iff.1 (isDelimiter_of_form hform)).2.2) h

/-- Stripping stops and lower-casing can be done in either order. -/
theorem strip_lowercase (cs : List Char) :
    strip isStop (lowercase cs) = lowercase (strip isStop cs) := by
  obtain ⟨lead, trail, hcs, hlead, htrail⟩ := exists_strip isStop cs
  have htrimmed := trimmed_isStop_lowercase (trimmed_strip isStop cs)
  calc strip isStop (lowercase cs)
      = strip isStop (lowercase (lead ++ strip isStop cs ++ trail)) := by rw [← hcs]
    _ = strip isStop (lead ++ lowercase (strip isStop cs) ++ trail) := by
      rw [lowercase_append_stops htrail, lowercase_stops_append hlead]
    _ = lowercase (strip isStop cs) := strip_append hlead htrail htrimmed

end Concord.Text
