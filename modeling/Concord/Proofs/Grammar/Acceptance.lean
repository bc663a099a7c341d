import Concord.Proofs.Grammar.Recovery
import Concord.Verdict

/-!
# Acceptance

A program is accepted when it has no errors and at least one sentence. Its segments are then
sentences, each but the last with its separator, and that is how the grammar derives a program.

Main statements: `accepted_iff` and `program_iff`, what is accepted is exactly what the grammar
derives, and the sentences of the derivation are counted.
-/

namespace Concord

open Grammar

/-- The program is read without an error, and there is something in it. -/
def Accepted (tokens : List Token) : Prop :=
  (parseProgram tokens).errors = [] ∧ 1 ≤ (parseProgram tokens).sentences

theorem verdict_ok_iff {tokens : List Token} :
    (parseProgram tokens).verdict.ok = true ↔ Accepted tokens := by
  unfold Accepted Report.verdict
  by_cases herrors : (parseProgram tokens).errors = []
  · by_cases hzero : (parseProgram tokens).sentences = 0
    · simp [herrors, hzero, Verdict.ok]
    · have hpos : 1 ≤ (parseProgram tokens).sentences := Nat.one_le_iff_ne_zero.2 hzero
      simp [herrors, hzero, hpos, Verdict.ok]
  · simp [herrors, Verdict.ok]

/-! ## Accepted segments -/

/-- A segment without a separator is accepted exactly where it is a sentence. -/
theorem segmentOutcome_ok_iff {g : List Token} (hg : ∀ t ∈ g, t.isSeparator = false) :
    segmentOutcome g = .ok () ↔ ∃ n, Sentence n g := by
  refine ⟨fun h => ?_, fun h => ?_⟩
  · obtain ⟨n, s, hs, ⟨hgs, -⟩ | ⟨c, hc, hgs⟩⟩ := scanSentence_reads_iff.1 ⟨h, rfl⟩
    · exact ⟨n, hgs ▸ hs⟩
    · have hmem : c ∈ g := hgs ▸ List.mem_append_right s List.mem_cons_self
      exact absurd hmem (not_mem_of_isSeparator hg hc)
  · obtain ⟨n, hs⟩ := h
    have hreads : (scanSentence (endPosition g) g).Reads () [] :=
      scanSentence_reads_iff.2 ⟨n, g, hs, Or.inl ⟨rfl, rfl⟩⟩
    exact hreads.1

/-- A segment with a separator is accepted exactly where a sentence stands before it. -/
theorem segmentOutcome_append_ok_iff {g : List Token} {c : Token}
    (hg : ∀ t ∈ g, t.isSeparator = false) (hc : c.isSeparator = true) :
    segmentOutcome (g ++ [c]) = .ok () ↔ ∃ n, Sentence n g := by
  refine ⟨fun h => ?_, fun h => ?_⟩
  · obtain ⟨n, s, hs, ⟨hgs, -⟩ | ⟨c', hc', hgs⟩⟩ := scanSentence_reads_iff.1 ⟨h, rfl⟩
    · have hmem : c ∈ s := hgs ▸ List.mem_append_right g List.mem_cons_self
      exact absurd hmem (not_mem_of_isSeparator hs.not_separator hc)
    · obtain ⟨rfl, -⟩ := eq_of_append_eq hg hs.not_separator hc hc' hgs
      exact ⟨n, hs⟩
  · obtain ⟨n, hs⟩ := h
    have hreads : (scanSentence (endPosition (g ++ [c])) (g ++ [c])).Reads () [] :=
      scanSentence_reads_iff.2 ⟨n, g, hs, Or.inr ⟨c, hc, rfl⟩⟩
    exact hreads.1

/-! ## Derivations -/

theorem Grammar.Program.ne_nil {k : Nat} {ts : List Token} (h : Program k ts) : ts ≠ [] := by
  cases h with
  | sentence hs => exact hs.ne_nil
  | trailing _ _ => simp
  | cons _ _ _ => simp

/-- The segments of a derived program are accepted, and there are as many as sentences. -/
theorem Grammar.Program.segments {k : Nat} {ts : List Token} (h : Program k ts) :
    k = (segments ts).length ∧ ∀ g ∈ segments ts, segmentOutcome g = .ok () := by
  induction h with
  | @sentence n s hs =>
    rw [segments_of_not_separator hs.not_separator hs.ne_nil]
    refine ⟨rfl, List.forall_mem_singleton.2 ?_⟩
    exact (segmentOutcome_ok_iff hs.not_separator).2 ⟨n, hs⟩
  | @trailing n s c hs hc =>
    rw [segments_append hs.not_separator hc, Concord.segments]
    refine ⟨rfl, List.forall_mem_singleton.2 ?_⟩
    exact (segmentOutcome_append_ok_iff hs.not_separator hc).2 ⟨n, hs⟩
  | @cons n s ts c k hs hc _ ih =>
    rw [segments_append hs.not_separator hc]
    refine ⟨congrArg (· + 1) ih.1, List.forall_mem_cons.2 ⟨?_, ih.2⟩⟩
    exact (segmentOutcome_append_ok_iff hs.not_separator hc).2 ⟨n, hs⟩

/-- Accepted segments make a program. -/
theorem exists_program {ts : List Token} (hne : ts ≠ [])
    (h : ∀ g ∈ segments ts, segmentOutcome g = .ok ()) : ∃ k, Program k ts := by
  induction ts using segments_induction with
  | nil => exact absurd rfl hne
  | last g hne' hg =>
    rw [segments_of_not_separator hg hne', List.forall_mem_singleton] at h
    obtain ⟨n, hs⟩ := (segmentOutcome_ok_iff hg).1 h
    exact ⟨1, .sentence hs⟩
  | cut g c ts hg hc ih =>
    rw [segments_append hg hc, List.forall_mem_cons] at h
    obtain ⟨n, hs⟩ := (segmentOutcome_append_ok_iff hg hc).1 h.1
    by_cases hts : ts = []
    · subst hts
      exact ⟨1, .trailing hs hc⟩
    · obtain ⟨k, hprogram⟩ := ih hts h.2
      exact ⟨k + 1, .cons hs hc hprogram⟩

/-- Where every segment is accepted, there are no errors, and the segments are counted. -/
theorem parseProgram_of_segments {ts : List Token}
    (hne : ts ≠ []) (h : ∀ g ∈ segments ts, segmentOutcome g = .ok ()) :
    parseProgram ts = ⟨(segments ts).length, []⟩ := by
  obtain ⟨t, us, rfl⟩ := List.exists_cons_of_ne_nil hne
  have ht : t.isSeparator = false := by
    cases ht : t.isSeparator with
    | false => rfl
    | true =>
      have halone : segmentOutcome [t] = .ok () := h [t] (by simp [segments, ht])
      rw [segmentOutcome_separator ht] at halone
      simp at halone
  have hall : (t :: us).all Token.isSeparator = false := by simp [ht]
  rw [parseProgram_eq hall, segmentReport_eq]
  have hcount : (segments (t :: us)).countP (fun g => (segmentOutcome g).isOk) =
      (segments (t :: us)).length :=
    List.countP_eq_length.2 fun g hg => by rw [h g hg]; rfl
  have herrors : (segments (t :: us)).filterMap segmentError? = [] :=
    List.filterMap_eq_nil_iff.2 fun g hg => segmentError?_eq_none.2 (h g hg)
  rw [hcount, herrors]

/-- A program is accepted exactly where it is not empty and all its segments are accepted. -/
theorem accepted_iff_segments {ts : List Token} :
    Accepted ts ↔ ts ≠ [] ∧ ∀ g ∈ segments ts, segmentOutcome g = .ok () := by
  refine ⟨fun h => ?_, fun h => ?_⟩
  · obtain ⟨herrors, hpos⟩ := h
    have hall : ts.all Token.isSeparator = false := by
      cases hall : ts.all Token.isSeparator with
      | false => rfl
      | true =>
        rw [parseProgram, if_pos hall, Report.empty] at hpos
        simp at hpos
    refine ⟨fun hnil => ?_, fun g hg => ?_⟩
    · subst hnil
      simp at hall
    · rw [parseProgram_eq hall, segmentReport_eq] at herrors
      exact segmentError?_eq_none.1 (List.filterMap_eq_nil_iff.1 herrors g hg)
  · obtain ⟨hne, hok⟩ := h
    unfold Accepted
    rw [parseProgram_of_segments hne hok]
    have hpos : 1 ≤ (segments ts).length := List.length_pos_iff.2 (segments_ne_nil hne)
    exact ⟨rfl, hpos⟩

/-- Acceptance is derivability. -/
theorem accepted_iff {ts : List Token} : Accepted ts ↔ ∃ k, Program k ts := by
  rw [accepted_iff_segments]
  refine ⟨fun h => exists_program h.1 h.2, fun h => ?_⟩
  obtain ⟨k, hprogram⟩ := h
  exact ⟨hprogram.ne_nil, hprogram.segments.2⟩

/-- A program of `k` sentences is derived exactly where it is accepted with `k` sentences. -/
theorem program_iff {k : Nat} {ts : List Token} :
    Program k ts ↔ Accepted ts ∧ (parseProgram ts).sentences = k := by
  have hcount {k : Nat} (hprogram : Program k ts) : (parseProgram ts).sentences = k := by
    obtain ⟨hk, hok⟩ := hprogram.segments
    rw [parseProgram_of_segments hprogram.ne_nil hok, hk]
  refine ⟨fun h => ⟨accepted_iff.2 ⟨k, h⟩, hcount h⟩, fun h => ?_⟩
  obtain ⟨k', hprogram⟩ := accepted_iff.1 h.1
  have hk : k' = k := (hcount hprogram).symm.trans h.2
  exact hk ▸ hprogram

/-- The parser is sound and complete: it accepts a program exactly where the grammar derives it, and
counts the sentences of the derivation. -/
theorem parseProgram_accepts_iff (tokens : List Token) :
    ((parseProgram tokens).errors = [] ∧ 1 ≤ (parseProgram tokens).sentences ↔
      ∃ k, Program k tokens) ∧
    ((parseProgram tokens).verdict.ok = true ↔ ∃ k, Program k tokens) ∧
    ∀ k, Program k tokens ↔ (parseProgram tokens).verdict.ok = true ∧
      (parseProgram tokens).sentences = k := by
  refine ⟨accepted_iff, verdict_ok_iff.trans accepted_iff, fun k => ?_⟩
  rw [verdict_ok_iff]
  exact program_iff

end Concord
