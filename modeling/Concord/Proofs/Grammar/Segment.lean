import Concord.Grammar.Program
import Concord.Proofs.Grammar.Diagnosis

/-!
# Segments

A list of tokens is cut after every separator. The `segments` are what a program is made of: a
segment is read as one sentence with the separator after it, or breaks off with one error.

Main statements: `segmentation_segments` and `Segmentation.eq_segments`, there is exactly one way to
cut; `scanSentence_reads_iff` and `scanSentence_fails_iff`, a segment is read exactly where it is a
sentence and fails exactly at its breaks.
-/

namespace Concord

open Grammar

/-! ## Cutting -/

/-- The parts of a list of tokens, cut after every separator. -/
def segments : List Token → List (List Token)
  | [] => []
  | t :: ts =>
    if t.isSeparator then [t] :: segments ts
    else
      match segments ts with
      | [] => [[t]]
      | g :: gs => (t :: g) :: gs

theorem segments_append {g ts : List Token} {c : Token} (hg : ∀ t ∈ g, t.isSeparator = false)
    (hc : c.isSeparator = true) : segments (g ++ c :: ts) = (g ++ [c]) :: segments ts := by
  induction g with
  | nil => simp [segments, hc]
  | cons t g ih =>
    obtain ⟨ht, hg⟩ := List.forall_mem_cons.1 hg
    simp [segments, ht, ih hg]

theorem segments_of_not_separator {g : List Token} (hg : ∀ t ∈ g, t.isSeparator = false)
    (hne : g ≠ []) : segments g = [g] := by
  induction g with
  | nil => exact absurd rfl hne
  | cons t g ih =>
    obtain ⟨ht, hg⟩ := List.forall_mem_cons.1 hg
    cases g with
    | nil => simp [segments, ht]
    | cons u us =>
      rw [segments, ih hg (by simp)]
      simp [ht]

/-- Tokens are none, or one segment without its separator, or a segment with tokens after it. -/
@[elab_as_elim]
theorem segments_induction {P : List Token → Prop} (nil : P [])
    (last : ∀ g, g ≠ [] → (∀ t ∈ g, t.isSeparator = false) → P g)
    (cut : ∀ g c ts, (∀ t ∈ g, t.isSeparator = false) → c.isSeparator = true → P ts →
      P (g ++ c :: ts)) (ts : List Token) : P ts := by
  -- The tokens passed since the last separator are carried along.
  have hcarried : ∀ g, (∀ t ∈ g, t.isSeparator = false) → P (g ++ ts) := by
    induction ts with
    | nil =>
      intro g hg
      rw [List.append_nil]
      by_cases hne : g = []
      · exact hne ▸ nil
      · exact last g hne hg
    | cons t ts ih =>
      intro g hg
      cases ht : t.isSeparator with
      | true => exact cut g t ts hg ht (ih [] (List.forall_mem_nil _))
      | false =>
        have hmore := ih (g ++ [t]) (List.forall_mem_append.2 ⟨hg, List.forall_mem_singleton.2 ht⟩)
        simpa using hmore
  exact hcarried [] (List.forall_mem_nil _)

theorem flatten_segments (ts : List Token) : (segments ts).flatten = ts := by
  induction ts using segments_induction with
  | nil => rfl
  | last g hne hg => simp [segments_of_not_separator hg hne]
  | cut g c ts hg hc ih => simp [segments_append hg hc, ih]

theorem segments_ne_nil {ts : List Token} (h : ts ≠ []) : segments ts ≠ [] := by
  intro hnil
  have hflatten := flatten_segments ts
  rw [hnil] at hflatten
  exact h hflatten.symm

/-- A segment is not empty, and only its last token can be a separator. -/
theorem segment_of_mem {ts g : List Token} (h : g ∈ segments ts) :
    g ≠ [] ∧ ∀ t ∈ g.dropLast, t.isSeparator = false := by
  induction ts using segments_induction with
  | nil => simp [segments] at h
  | last g' hne hg =>
    rw [segments_of_not_separator hg hne, List.mem_singleton] at h
    subst h
    exact ⟨hne, fun t ht => hg t (List.dropLast_subset g ht)⟩
  | cut g' c ts hg hc ih =>
    rw [segments_append hg hc, List.mem_cons] at h
    rcases h with rfl | h
    · exact ⟨by simp, by simpa using hg⟩
    · exact ih h

/-- Every segment but the last ends with a separator. -/
theorem separator_of_mem_dropLast {ts g : List Token} (h : g ∈ (segments ts).dropLast) :
    ∃ c, g.getLast? = some c ∧ c.isSeparator = true := by
  induction ts using segments_induction with
  | nil => simp [segments] at h
  | last g' hne hg => simp [segments_of_not_separator hg hne] at h
  | cut g' c ts hg hc ih =>
    rw [segments_append hg hc] at h
    by_cases hts : ts = []
    · subst hts
      simp [segments] at h
    · rw [List.dropLast_cons_of_ne_nil (segments_ne_nil hts), List.mem_cons] at h
      rcases h with rfl | h
      · exact ⟨c, by simp, hc⟩
      · exact ih h

/-- The lists `gs` are `ts`, cut after every separator and nowhere else. -/
structure Segmentation (gs : List (List Token)) (ts : List Token) : Prop where
  flatten : gs.flatten = ts
  ne_nil : ∀ g ∈ gs, g ≠ []
  inner : ∀ g ∈ gs, ∀ t ∈ g.dropLast, t.isSeparator = false
  ends : ∀ g ∈ gs.dropLast, ∃ c, g.getLast? = some c ∧ c.isSeparator = true

theorem segmentation_segments (ts : List Token) : Segmentation (segments ts) ts where
  flatten := flatten_segments ts
  ne_nil _ h := (segment_of_mem h).1
  inner _ h := (segment_of_mem h).2
  ends _ h := separator_of_mem_dropLast h

/-- There is only one way to cut. -/
theorem Segmentation.eq_segments {gs : List (List Token)} {ts : List Token}
    (h : Segmentation gs ts) : gs = segments ts := by
  induction gs generalizing ts with
  | nil => rw [← h.flatten]; rfl
  | cons g gs ih =>
    have hne : g ≠ [] := h.ne_nil g List.mem_cons_self
    have htail : gs = segments gs.flatten := by
      refine ih ⟨rfl, fun g' hg' => h.ne_nil g' (List.mem_cons_of_mem g hg'),
        fun g' hg' => h.inner g' (List.mem_cons_of_mem g hg'), fun g' hg' => h.ends g' ?_⟩
      rw [List.dropLast_cons_of_ne_nil (List.ne_nil_of_mem (List.dropLast_subset gs hg'))]
      exact List.mem_cons_of_mem g hg'
    obtain ⟨us, c, rfl⟩ : ∃ us c, g = us ++ [c] :=
      ⟨g.dropLast, g.getLast hne, (List.dropLast_concat_getLast hne).symm⟩
    have hus : ∀ t ∈ us, t.isSeparator = false := by
      simpa using h.inner (us ++ [c]) List.mem_cons_self
    rw [← h.flatten, List.flatten_cons]
    cases hc : c.isSeparator with
    | true => rw [List.append_assoc, List.singleton_append, segments_append hus hc, ← htail]
    | false =>
      have hnil : gs = [] := by
        by_cases hgs : gs = []
        · exact hgs
        · have hmem : us ++ [c] ∈ ((us ++ [c]) :: gs).dropLast := by
            rw [List.dropLast_cons_of_ne_nil hgs]
            exact List.mem_cons_self
          obtain ⟨c', hlast, hc'⟩ := h.ends _ hmem
          obtain rfl : c = c' := by simpa using hlast
          exact absurd hc (by simp [hc'])
      have hall : ∀ t ∈ us ++ [c], t.isSeparator = false :=
        List.forall_mem_append.2 ⟨hus, List.forall_mem_singleton.2 hc⟩
      rw [hnil, List.flatten_nil, List.append_nil, segments_of_not_separator hall hne]

/-! ## Reading a segment -/

/-- Reads the separator after a sentence, or nothing at the end. -/
def endSentence (ts : List Token) : Step ts Unit :=
  match ts with
  | [] => .done ()
  | next :: rest =>
    if next.isSeparator then ⟨.ok (), rest, List.suffix_cons next rest⟩
    else .fail (.expectedSeparator next.word next.position)

theorem endSentence_reads_iff {ts rest : List Token} :
    (endSentence ts).Reads () rest ↔
      (ts = [] ∧ rest = []) ∨ ∃ c, c.isSeparator = true ∧ ts = c :: rest := by
  cases ts with
  | nil =>
    rw [endSentence, Step.done_reads]
    refine ⟨fun h => Or.inl ⟨rfl, h.2.symm⟩, fun h => ?_⟩
    rcases h with ⟨-, rfl⟩ | ⟨c, -, hc⟩
    · exact ⟨rfl, rfl⟩
    · simp at hc
  | cons t ts =>
    cases ht : t.isSeparator with
    | true =>
      rw [endSentence, if_pos ht]
      refine ⟨fun h => Or.inr ⟨t, ht, congrArg (t :: ·) h.2⟩, fun h => ?_⟩
      rcases h with ⟨hnil, -⟩ | ⟨c, -, hc⟩
      · simp at hnil
      · exact ⟨rfl, (List.cons.inj hc).2⟩
    | false =>
      rw [endSentence, if_neg (by simp [ht])]
      refine ⟨fun h => absurd h Step.fail_reads, fun h => ?_⟩
      rcases h with ⟨hnil, -⟩ | ⟨c, hc, hts⟩
      · simp at hnil
      · rw [(List.cons.inj hts).1, hc] at ht
        simp at ht

theorem endSentence_fails_iff {ts rest : List Token} {e : SyntaxError} :
    (endSentence ts).Fails e rest ↔
      ∃ t us, ts = t :: us ∧ t.isSeparator = false ∧ rest = ts ∧
        e = .expectedSeparator t.word t.position := by
  cases ts with
  | nil => simp [endSentence]
  | cons t ts =>
    cases ht : t.isSeparator with
    | true =>
      rw [endSentence, if_pos ht]
      simp [Step.Fails, ht]
    | false =>
      rw [endSentence, if_neg (by simp [ht]), Step.fail_fails]
      refine ⟨fun h => ⟨t, ts, rfl, ht, h.2.symm, h.1.symm⟩, fun h => ?_⟩
      obtain ⟨u, us, hts, -, hrest, he⟩ := h
      obtain ⟨rfl, rfl⟩ := List.cons.inj hts
      exact ⟨he.symm, hrest.symm⟩

/-- Tokens that do not begin with a separator are read as a sentence and its end. -/
theorem scanSentence_same {finish : Nat} {ts : List Token}
    (h : ts.head?.any Token.isSeparator = false) :
    (scanSentence finish ts).Same
      ((sentence finish ts).andThen fun _ rest _ => endSentence rest) := by
  cases ts with
  | nil =>
    have hmissing : (sentence finish []).Fails (.missingNounPhrase finish) [] :=
      sentence_fails_iff.2 ⟨[], [], rfl, .subject .missing, rfl⟩
    have hscan : (scanSentence finish []).Fails (.missingNounPhrase finish) [] := ⟨rfl, rfl⟩
    exact hscan.same (Step.andThen_fails.2 (Or.inl hmissing))
  | cons t ts =>
    have heq : scanSentence finish (t :: ts) =
        (sentence finish (t :: ts)).andThen fun _ rest _ => endSentence rest := by
      rw [scanSentence, if_neg (by simpa using h)]
      congr
      funext _ rest _
      cases rest <;> rfl
    exact heq ▸ ⟨rfl, rfl⟩

theorem scanSentence_of_separator {finish : Nat} {c : Token} {ts : List Token}
    (h : c.isSeparator = true) :
    scanSentence finish (c :: ts) = .fail (.leadingSeparator c.position) := by
  rw [scanSentence, if_pos h]

/-- A sentence is read up to a separator or the end. -/
theorem Grammar.Sentence.reads {n : Number} {s rest : List Token} (hs : Sentence n s)
    (finish : Nat) (hrest : nextCategory rest = none ∨ nextCategory rest = some .comma) :
    (sentence finish (s ++ rest)).Reads n rest := by
  obtain ⟨ho, hcs⟩ := hs
  rw [List.append_assoc]
  refine sentence_reads_iff.2 ⟨_, _, rfl, ho, hcs, ?_, fun _ => ?_⟩
  · rcases hrest with h | h <;> simp [h]
  · rcases hrest with h | h <;> simp [startsPhrase, h, Category.startsNounPhrase]

/-- A segment is read exactly where it is a sentence, with or without a separator after it. -/
theorem scanSentence_reads_iff {finish : Nat} {ts rest : List Token} :
    (scanSentence finish ts).Reads () rest ↔
      ∃ n s, Sentence n s ∧
        ((ts = s ∧ rest = []) ∨ ∃ c, c.isSeparator = true ∧ ts = s ++ c :: rest) := by
  refine ⟨fun h => ?_, fun h => ?_⟩
  · cases hhead : ts.head?.any Token.isSeparator with
    | true =>
      cases ts with
      | nil => simp at hhead
      | cons c ts =>
        rw [scanSentence_of_separator (by simpa using hhead)] at h
        exact absurd h Step.fail_reads
    | false =>
      rw [(scanSentence_same hhead).reads_iff, Step.andThen_reads] at h
      obtain ⟨n, mid, -, hsentence, hend⟩ := h
      obtain ⟨opening, cs, hts, ho, hcs, -⟩ := sentence_reads_iff.1 hsentence
      refine ⟨n, opening ++ cs, .intro ho hcs, ?_⟩
      rcases endSentence_reads_iff.1 hend with ⟨rfl, rfl⟩ | ⟨c, hc, rfl⟩
      · exact Or.inl ⟨by simpa using hts, rfl⟩
      · exact Or.inr ⟨c, hc, by simpa using hts⟩
  · obtain ⟨n, s, hs, hcase⟩ := h
    obtain ⟨t, us, rfl⟩ := List.exists_cons_of_ne_nil hs.ne_nil
    have ht : t.isSeparator = false := hs.not_separator t List.mem_cons_self
    have hread {mid : List Token} (hmid : nextCategory mid = none ∨ nextCategory mid = some .comma)
        (hend : (endSentence mid).Reads () rest) :
        (scanSentence finish (t :: us ++ mid)).Reads () rest := by
      rw [(scanSentence_same (by simpa using ht)).reads_iff]
      exact ((hs.reads finish hmid).andThen_same _).reads_iff.2 hend
    rcases hcase with ⟨rfl, rfl⟩ | ⟨c, hc, rfl⟩
    · have h := hread (Or.inl rfl) (endSentence_reads_iff.2 (Or.inl ⟨rfl, rfl⟩))
      rwa [List.append_nil] at h
    · refine hread (Or.inr ?_) (endSentence_reads_iff.2 (Or.inr ⟨c, hc, rfl⟩))
      simpa using Token.isSeparator_iff.1 hc

/-! ## Breaks of a segment -/

namespace Grammar

/-- How a segment breaks off. -/
inductive SegmentBreak (finish : Nat) : List Token → Option Token → SyntaxError → Prop
  | leading {c : Token} : c.isSeparator = true →
      SegmentBreak finish [] (some c) (.leadingSeparator c.position)
  | sentence {read : List Token} {next : Option Token} {e : SyntaxError} :
      (read ++ next.toList).head?.any Token.isSeparator = false →
      SentenceBreak finish read next e → SegmentBreak finish read next e
  | overlong {n : Number} {opening cs : List Token} {t : Token} :
      Opening n opening → Complements cs → t.isSeparator = false → t.category ≠ .preposition →
      (cs = [] → t.category.startsNounPhrase = false) →
      SegmentBreak finish (opening ++ cs) (some t) (.expectedSeparator t.word t.position)

variable {finish : Nat} {read : List Token} {next : Option Token} {e : SyntaxError}

theorem SegmentBreak.located (h : SegmentBreak finish read next e) : Located next e := by
  cases h with
  | leading _ => exact ⟨rfl, rfl, fun _ _ => rfl⟩
  | sentence _ hsentence => exact hsentence.diagnosis.located
  | overlong _ _ _ _ _ => exact ⟨rfl, rfl, fun _ _ => rfl⟩

theorem SegmentBreak.not_separator (h : SegmentBreak finish read next e) :
    ∀ t ∈ read, t.isSeparator = false := by
  cases h with
  | leading _ => exact List.forall_mem_nil _
  | sentence _ hsentence => exact hsentence.not_separator
  | overlong ho hcs _ _ _ =>
    exact List.forall_mem_append.2 ⟨ho.not_separator, hcs.not_separator⟩

theorem SegmentBreak.of_some {t : Token} (h : SegmentBreak finish read (some t) e)
    (finish' : Nat) : SegmentBreak finish' read (some t) e := by
  cases h with
  | leading hc => exact .leading hc
  | sentence hhead hsentence => exact .sentence hhead (hsentence.of_some finish')
  | overlong ho hcs ht hprep hobject => exact .overlong ho hcs ht hprep hobject

end Grammar

/-- A broken segment is refused, whatever follows the next token. -/
theorem Grammar.SegmentBreak.fails {finish : Nat} {read left : List Token} {e : SyntaxError}
    (h : SegmentBreak finish read left.head? e) :
    (scanSentence finish (read ++ left)).Fails e (e.unread left) := by
  generalize hnext : left.head? = next at h
  cases h with
  | @leading c hc =>
    obtain ⟨us, rfl⟩ := List.head?_eq_some_iff.1 hnext
    rw [List.nil_append, scanSentence_of_separator hc]
    exact Step.fail_fails.2 ⟨rfl, rfl⟩
  | sentence hhead hsentence =>
    subst hnext
    rw [head?_append_head?] at hhead
    rw [(scanSentence_same hhead).fails_iff]
    exact Step.andThen_fails.2 (Or.inl hsentence.fails)
  | @overlong n opening cs t ho hcs ht hprep hobject =>
    obtain ⟨us, rfl⟩ := List.head?_eq_some_iff.1 hnext
    have hsentence : (Concord.sentence finish (opening ++ (cs ++ t :: us))).Reads n (t :: us) := by
      refine sentence_reads_iff.2 ⟨opening, cs, rfl, ho, hcs, ?_, fun hnil => ?_⟩
      · simpa using hprep
      · simpa [startsPhrase] using hobject hnil
    have hend : (endSentence (t :: us)).Fails (.expectedSeparator t.word t.position) (t :: us) :=
      endSentence_fails_iff.2 ⟨t, us, rfl, ht, rfl, rfl⟩
    have hhead : (opening ++ (cs ++ t :: us)).head?.any Token.isSeparator = false := by
      obtain ⟨u, vs, rfl⟩ := List.exists_cons_of_ne_nil ho.ne_nil
      simpa using ho.not_separator u List.mem_cons_self
    rw [List.append_assoc, (scanSentence_same hhead).fails_iff]
    exact (hsentence.andThen_same _).fails_iff.2 hend

/-- What follows the sentence of a segment, if it is no separator, breaks the segment. -/
theorem segmentBreak_of_sentence {finish : Nat} {n : Number} {ts mid rest : List Token}
    {e : SyntaxError} (hsentence : (sentence finish ts).Reads n mid)
    (hend : (endSentence mid).Fails e rest) : BreaksAt (SegmentBreak finish) ts e rest := by
  obtain ⟨opening, cs, rfl, ho, hcs, hnext, hobject⟩ := sentence_reads_iff.1 hsentence
  obtain ⟨t, us, rfl, ht, rfl, rfl⟩ := endSentence_fails_iff.1 hend
  refine ⟨opening ++ cs, t :: us, by simp, .overlong ho hcs ht ?_ ?_, rfl⟩
  · simpa using hnext
  · simpa [startsPhrase] using hobject

/-- Segments fail exactly at their breaks. -/
theorem scanSentence_fails_iff {finish : Nat} {ts rest : List Token} {e : SyntaxError} :
    (scanSentence finish ts).Fails e rest ↔ BreaksAt (SegmentBreak finish) ts e rest := by
  refine ⟨fun h => ?_, fun h => ?_⟩
  · cases hhead : ts.head?.any Token.isSeparator with
    | true =>
      cases ts with
      | nil => simp at hhead
      | cons c ts =>
        have hc : c.isSeparator = true := by simpa using hhead
        rw [scanSentence_of_separator hc] at h
        obtain ⟨rfl, rfl⟩ := Step.fail_fails.1 h
        exact ⟨[], c :: ts, rfl, .leading hc, rfl⟩
    | false =>
      rw [(scanSentence_same hhead).fails_iff, Step.andThen_fails] at h
      rcases h with hsentence | ⟨n, mid, -, hsentence, hend⟩
      · obtain ⟨read, left, rfl, hbreak, hrest⟩ := sentence_fails_iff.1 hsentence
        rw [← head?_append_head?] at hhead
        exact ⟨read, left, rfl, .sentence hhead hbreak, hrest⟩
      · exact segmentBreak_of_sentence hsentence hend
  · obtain ⟨read, left, rfl, hbreak, rfl⟩ := h
    exact hbreak.fails

/-! ## A segment on its own -/

/-- What becomes of a segment that is read on its own. -/
def segmentOutcome (g : List Token) : Except SyntaxError Unit :=
  (scanSentence (endPosition g) g).outcome

/-- A segment that is not accepted has a break in it. -/
theorem exists_segmentBreak {g : List Token} {e : SyntaxError} (h : segmentOutcome g = .error e) :
    ∃ read left, g = read ++ left ∧ SegmentBreak (endPosition g) read left.head? e := by
  obtain ⟨read, left, hg, hbreak, -⟩ := scanSentence_fails_iff.1 ⟨h, rfl⟩
  exact ⟨read, left, hg, hbreak⟩

theorem afterSeparator_append {g ts : List Token} {c : Token}
    (hg : ∀ t ∈ g, t.isSeparator = false) (hc : c.isSeparator = true) :
    afterSeparator (g ++ c :: ts) = ts := by
  induction g with
  | nil => simp [afterSeparator, hc]
  | cons t g ih =>
    obtain ⟨ht, hg⟩ := List.forall_mem_cons.1 hg
    simp [afterSeparator, ht, ih hg]

theorem afterSeparator_of_not_separator {g : List Token} (hg : ∀ t ∈ g, t.isSeparator = false) :
    afterSeparator g = [] := by
  induction g with
  | nil => rfl
  | cons t g ih =>
    obtain ⟨ht, hg⟩ := List.forall_mem_cons.1 hg
    simp [afterSeparator, ht, ih hg]

/-- Tokens without a separator stand before the first separator. -/
theorem exists_of_append_eq {g read left ts : List Token} {c : Token}
    (hread : ∀ t ∈ read, t.isSeparator = false) (hc : c.isSeparator = true)
    (h : g ++ c :: ts = read ++ left) : ∃ m, g = read ++ m ∧ left = m ++ c :: ts := by
  rcases List.append_eq_append_iff.1 h with ⟨m, rfl, hm⟩ | ⟨m, rfl, rfl⟩
  · cases m with
    | nil => exact ⟨[], by simp, by simpa using hm.symm⟩
    | cons u us =>
      obtain ⟨rfl, -⟩ := List.cons.inj hm
      have hmem : c ∈ g ++ c :: us := List.mem_append_right g List.mem_cons_self
      exact absurd hmem (not_mem_of_isSeparator hread hc)
  · exact ⟨m, rfl, rfl⟩

/-- The first separator is the only one that can follow tokens without one. -/
theorem eq_of_append_eq {g s ts rest : List Token} {c c' : Token}
    (hg : ∀ t ∈ g, t.isSeparator = false) (hs : ∀ t ∈ s, t.isSeparator = false)
    (hc : c.isSeparator = true) (hc' : c'.isSeparator = true)
    (h : g ++ c :: ts = s ++ c' :: rest) : g = s ∧ ts = rest := by
  obtain ⟨m, rfl, hm⟩ := exists_of_append_eq hs hc h
  cases m with
  | nil => exact ⟨by simp, (List.cons.inj hm).2.symm⟩
  | cons u us =>
    obtain ⟨rfl, -⟩ := List.cons.inj hm
    have hmem : c' ∈ s ++ c' :: us := List.mem_append_right s List.mem_cons_self
    exact absurd hmem (not_mem_of_isSeparator hg hc')

end Concord
