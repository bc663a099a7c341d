import Concord.Proofs.Grammar.Segment

/-!
# Recovery

Reading a program is one run over all its tokens, in two modes that follow one another. It comes to
the same as reading every segment on its own: no production crosses a separator, wherever it stops,
so recovering resumes right after the separator that ends the broken segment (`scanSentence_cut`).

Main statements: `run_scanning`, a run gives the report that is put together from the outcomes of
the segments; `parseProgram_segmentwise`, so does reading a program.
-/

namespace Concord

open Grammar

/-! ## One segment -/

/-- Recovering from a segment that fails before its separator `c` goes on right after `c`. The
failure passes over at most one token, which is not `c`. -/
theorem afterSeparator_unread {m ts : List Token} {c : Token} {e : SyntaxError}
    (hm : ∀ t ∈ m, t.isSeparator = false) (hc : c.isSeparator = true)
    (hkept : m = [] → e.unread (c :: ts) = c :: ts) :
    afterSeparator (e.unread (m ++ c :: ts)) = ts := by
  cases m with
  | nil =>
    rw [List.nil_append, hkept rfl]
    exact afterSeparator_append hm hc
  | cons t m =>
    have hwhole : afterSeparator (t :: m ++ c :: ts) = ts := afterSeparator_append hm hc
    have htail : afterSeparator (m ++ c :: ts) = ts :=
      afterSeparator_append (List.forall_mem_cons.1 hm).2 hc
    unfold SyntaxError.unread
    split
    · exact htail
    · exact htail
    · exact htail
    · exact hwhole

/-- A segment that breaks off before other tokens breaks off alike on its own. -/
theorem segmentOutcome_of_break {finish : Nat} {read m ts : List Token} {c : Token}
    {e : SyntaxError} (h : SegmentBreak finish read (m ++ c :: ts).head? e) :
    segmentOutcome (read ++ m ++ [c]) = .error e := by
  obtain ⟨t, ht⟩ : ∃ t, (m ++ [c]).head? = some t := by cases m <;> simp
  have hhead : (m ++ c :: ts).head? = some t := by
    rw [← ht]
    cases m <;> rfl
  rw [hhead] at h
  have halone : SegmentBreak (endPosition (read ++ (m ++ [c]))) read (m ++ [c]).head? e :=
    ht ▸ h.of_some _
  have hfails := scanSentence_fails_iff.2 ⟨read, m ++ [c], rfl, halone, rfl⟩
  rw [List.append_assoc]
  exact hfails.1

/-- A segment before other tokens fares as it does on its own, and reading goes on after it. -/
theorem scanSentence_cut {finish : Nat} {g ts : List Token} {c : Token}
    (hg : ∀ t ∈ g, t.isSeparator = false) (hc : c.isSeparator = true) :
    (segmentOutcome (g ++ [c]) = .ok () ∧ (scanSentence finish (g ++ c :: ts)).Reads () ts) ∨
      ∃ e rest, segmentOutcome (g ++ [c]) = .error e ∧
        (scanSentence finish (g ++ c :: ts)).Fails e rest ∧ afterSeparator rest = ts := by
  rcases (scanSentence finish (g ++ c :: ts)).reads_or_fails with ⟨_, rest, h⟩ | ⟨e, rest, h⟩
  · obtain ⟨n, s, hs, ⟨hts, -⟩ | ⟨c', hc', hts⟩⟩ := scanSentence_reads_iff.1 h
    · have hmem : c ∈ s := hts ▸ List.mem_append_right g List.mem_cons_self
      exact absurd hmem (not_mem_of_isSeparator hs.not_separator hc)
    · obtain ⟨rfl, rfl⟩ := eq_of_append_eq hg hs.not_separator hc hc' hts
      have halone : (scanSentence (endPosition (g ++ [c])) (g ++ [c])).Reads () [] :=
        scanSentence_reads_iff.2 ⟨n, g, hs, Or.inr ⟨c, hc, rfl⟩⟩
      exact Or.inl ⟨halone.1, h⟩
  · obtain ⟨read, left, hts, hbreak, hrest⟩ := scanSentence_fails_iff.1 h
    obtain ⟨m, rfl, rfl⟩ := exists_of_append_eq hbreak.not_separator hc hts
    refine Or.inr ⟨e, rest, segmentOutcome_of_break hbreak, h, ?_⟩
    rw [hrest]
    refine afterSeparator_unread (fun t ht => hg t (List.mem_append_right read ht)) hc ?_
    intro hm
    subst hm
    have hlocated : Located (some c) e := hbreak.located
    exact hlocated.2.2 hc ts

/-- The last segment, without its separator, is read or passed over to its end. -/
theorem scanSentence_last {g : List Token} (hg : ∀ t ∈ g, t.isSeparator = false) :
    (segmentOutcome g = .ok () ∧ (scanSentence (endPosition g) g).Reads () []) ∨
      ∃ e rest, segmentOutcome g = .error e ∧
        (scanSentence (endPosition g) g).Fails e rest ∧ afterSeparator rest = [] := by
  rcases (scanSentence (endPosition g) g).reads_or_fails with ⟨_, rest, h⟩ | ⟨e, rest, h⟩
  · obtain ⟨n, s, -, ⟨-, rfl⟩ | ⟨c, hc, hts⟩⟩ := scanSentence_reads_iff.1 h
    · exact Or.inl ⟨h.1, h⟩
    · have hmem : c ∈ g := hts ▸ List.mem_append_right s List.mem_cons_self
      exact absurd hmem (not_mem_of_isSeparator hg hc)
  · have hsuffix : rest <:+ g := h.2 ▸ (scanSentence (endPosition g) g).suffix
    refine Or.inr ⟨e, rest, h.1, h, ?_⟩
    exact afterSeparator_of_not_separator fun t ht => hg t (hsuffix.subset ht)

/-! ## The run -/

/-- The report put together from segments that are read on their own. -/
def segmentReport (gs : List (List Token)) : Report :=
  gs.foldr (fun g r => r.record (some (segmentOutcome g))) .empty

theorem segmentReport_cons (g : List Token) (gs : List (List Token)) :
    segmentReport (g :: gs) = (segmentReport gs).record (some (segmentOutcome g)) := rfl

namespace Stage

variable {finish : Nat} {ts rest : List Token} {e : SyntaxError}

/-- What is done after a sentence was scanned. -/
def modeAfter : Except SyntaxError Unit → Mode
  | .ok () => .scanning
  | .error _ => .recovering

theorem advance_scanning (finish : Nat) (ts : List Token) :
    advance finish ⟨.scanning, ts⟩ =
      (some (scanSentence finish ts).outcome,
        ⟨modeAfter (scanSentence finish ts).outcome, (scanSentence finish ts).rest⟩) := by
  unfold advance
  rcases scanSentence finish ts with ⟨e | ⟨⟩, rest, suffix⟩ <;> rfl

theorem advance_of_reads (h : (scanSentence finish ts).Reads () rest) :
    advance finish ⟨.scanning, ts⟩ = (some (.ok ()), ⟨.scanning, rest⟩) := by
  rw [advance_scanning, h.1, h.2, modeAfter]

theorem advance_of_fails (h : (scanSentence finish ts).Fails e rest) :
    advance finish ⟨.scanning, ts⟩ = (some (.error e), ⟨.recovering, rest⟩) := by
  rw [advance_scanning, h.1, h.2, modeAfter]

theorem run_nil (mode : Mode) : run finish ⟨mode, []⟩ = .empty := by
  rw [run, dif_pos rfl]

theorem run_of_ne_nil {s : Stage} (h : s.rest ≠ []) :
    s.run finish = ((s.advance finish).2.run finish).record (s.advance finish).1 := by
  rw [run, dif_neg h]

/-- Recovering finds nothing and goes on after the next separator. -/
theorem run_recovering :
    run finish ⟨.recovering, ts⟩ = run finish ⟨.scanning, afterSeparator ts⟩ := by
  by_cases h : ts = []
  · subst h
    rw [afterSeparator, run_nil, run_nil]
  · rw [run_of_ne_nil h]
    rfl

theorem run_of_reads (h : (scanSentence finish ts).Reads () rest) :
    run finish ⟨.scanning, ts⟩ = (run finish ⟨.scanning, rest⟩).record (some (.ok ())) := by
  have hne : ts ≠ [] := by
    intro hnil
    subst hnil
    exact absurd h Step.fail_reads
  rw [run_of_ne_nil hne, advance_of_reads h]

theorem run_of_fails (hne : ts ≠ []) (h : (scanSentence finish ts).Fails e rest) :
    run finish ⟨.scanning, ts⟩ =
      (run finish ⟨.scanning, afterSeparator rest⟩).record (some (.error e)) := by
  rw [run_of_ne_nil hne, advance_of_fails h, run_recovering]

/-- Once a segment is done with, the run goes on after it. -/
theorem run_segment {outcome : Except SyntaxError Unit} (hne : ts ≠ [])
    (h : (outcome = .ok () ∧ (scanSentence finish ts).Reads () rest) ∨
      ∃ e left, outcome = .error e ∧ (scanSentence finish ts).Fails e left ∧
        afterSeparator left = rest) :
    run finish ⟨.scanning, ts⟩ = (run finish ⟨.scanning, rest⟩).record (some outcome) := by
  rcases h with ⟨rfl, hreads⟩ | ⟨e, left, rfl, hfails, rfl⟩
  · exact run_of_reads hreads
  · exact run_of_fails hne hfails

end Stage

/-- The end of a program is the end of its last tokens. -/
theorem endPosition_append {us ts : List Token} (h : ts ≠ []) :
    endPosition (us ++ ts) = endPosition ts := by
  unfold endPosition
  rw [List.getLast?_append, List.getLast?_eq_some_getLast h]
  rfl

/-- A run gives the report of its segments. Only the last segment can see the end of the program,
which is its own end. -/
theorem run_scanning {finish : Nat} {ts : List Token} (h : ts ≠ [] → endPosition ts = finish) :
    Stage.run finish ⟨.scanning, ts⟩ = segmentReport (segments ts) := by
  induction ts using segments_induction with
  | nil => exact Stage.run_nil .scanning
  | last g hne hg =>
    obtain rfl := h hne
    rw [Stage.run_segment hne (scanSentence_last hg), Stage.run_nil,
      segments_of_not_separator hg hne]
    rfl
  | cut g c ts hg hc ih =>
    have hrest : Stage.run finish ⟨.scanning, ts⟩ = segmentReport (segments ts) := by
      refine ih fun hne => ?_
      rw [← h (by simp), List.append_cons, endPosition_append hne]
    rw [Stage.run_segment (by simp) (scanSentence_cut hg hc), hrest, segments_append hg hc]
    rfl

/-! ## The report -/

/-- The error of a segment that is not accepted. -/
def segmentError? (g : List Token) : Option SyntaxError :=
  match segmentOutcome g with
  | .ok () => none
  | .error e => some e

theorem segmentError?_eq_some {g : List Token} {e : SyntaxError} :
    segmentError? g = some e ↔ segmentOutcome g = .error e := by
  unfold segmentError?
  cases h : segmentOutcome g <;> simp

theorem segmentError?_eq_none {g : List Token} :
    segmentError? g = none ↔ segmentOutcome g = .ok () := by
  unfold segmentError?
  cases h : segmentOutcome g <;> simp

/-- The accepted segments are counted, the errors of the others are listed. -/
theorem segmentReport_eq (gs : List (List Token)) :
    segmentReport gs =
      ⟨gs.countP fun g => (segmentOutcome g).isOk, gs.filterMap segmentError?⟩ := by
  induction gs with
  | nil => rfl
  | cons g gs ih =>
    rw [segmentReport_cons, ih]
    cases h : segmentOutcome g with
    | ok u =>
      have hnone : segmentError? g = none := segmentError?_eq_none.2 h
      simp [Report.record, h, hnone, Except.isOk, Except.toBool]
    | error e =>
      have hsome : segmentError? g = some e := segmentError?_eq_some.2 h
      simp [Report.record, h, hsome, Except.isOk, Except.toBool]

/-- Every segment counts once, as a sentence or as an error. -/
theorem segmentReport_total (gs : List (List Token)) :
    (segmentReport gs).sentences + (segmentReport gs).errors.length = gs.length := by
  induction gs with
  | nil => rfl
  | cons g gs ih =>
    rw [segmentReport_cons, List.length_cons, ← ih]
    cases segmentOutcome g with
    | ok u => simp only [Report.record]; omega
    | error e => simp only [Report.record, List.length_cons]; omega

/-- A separator that stands alone is an error. -/
theorem segmentOutcome_separator {c : Token} (hc : c.isSeparator = true) :
    segmentOutcome [c] = .error (.leadingSeparator c.position) := by
  rw [segmentOutcome, scanSentence_of_separator hc]
  rfl

/-- A program that is not made of separators only has the report of its segments. -/
theorem parseProgram_eq {tokens : List Token} (h : tokens.all Token.isSeparator = false) :
    parseProgram tokens = segmentReport (segments tokens) := by
  rw [parseProgram, if_neg (by simp [h])]
  exact run_scanning fun _ => rfl

/-- Reading a program comes to cutting it after every separator and reading each segment on its own:
the sentences are the segments that are accepted, the errors are those of the others, in order. -/
theorem parseProgram_segmentwise (tokens : List Token) :
    Segmentation (segments tokens) tokens ∧
    (∀ c, c.isSeparator = true → segmentOutcome [c] = .error (.leadingSeparator c.position)) ∧
    if tokens.all Token.isSeparator then
      parseProgram tokens = .empty
    else
      (parseProgram tokens).sentences =
        (segments tokens).countP (fun g => (segmentOutcome g).isOk) ∧
      (parseProgram tokens).errors = (segments tokens).filterMap segmentError? ∧
      (parseProgram tokens).sentences + (parseProgram tokens).errors.length =
        (segments tokens).length := by
  refine ⟨segmentation_segments tokens, fun c hc => segmentOutcome_separator hc, ?_⟩
  cases h : tokens.all Token.isSeparator with
  | true =>
    rw [if_pos rfl, parseProgram, if_pos h]
  | false =>
    rw [if_neg (by simp), parseProgram_eq h]
    have hreport := segmentReport_eq (segments tokens)
    refine ⟨?_, ?_, segmentReport_total (segments tokens)⟩
    · rw [hreport]
    · rw [hreport]

/-- The words ", they run". -/
def commaTheyRun : List Token :=
  [⟨",", .comma, .any, 1⟩, ⟨"they", .pronoun, .plural, 2⟩, ⟨"run", .verb, .plural, 3⟩]

/-- The comma is a segment of its own and is refused; both segments count. -/
theorem commaTheyRun_segmentwise :
    segmentOutcome [⟨",", .comma, .any, 1⟩] = .error (.leadingSeparator 1) ∧
      (parseProgram commaTheyRun).sentences + (parseProgram commaTheyRun).errors.length = 2 := by
  obtain ⟨-, hseparator, hreport⟩ := parseProgram_segmentwise commaTheyRun
  rw [if_neg (by decide)] at hreport
  exact ⟨hseparator ⟨",", .comma, .any, 1⟩ (by decide), hreport.2.2⟩

end Concord
