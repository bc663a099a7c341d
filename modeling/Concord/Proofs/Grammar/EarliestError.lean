import Concord.Proofs.Grammar.Acceptance

/-!
# Errors are reported as early as possible

An error is reported at the first token that no program can have there. The tokens before it can be
completed, because every break leaves a phrase that a noun or a verb would finish (`*.completes`),
and with it they cannot, because a break does not depend on the tokens after the next one
(`SegmentBreak.not_accepted`).

A determiner whose number only nouns have agrees with no noun, so it spoils a sentence before any
error is reported; such determiners are left out.

Main statement: `parseProgram_errors_earliest`.
-/

namespace Concord

open Grammar

/-- Some tokens make an accepted program of `ts`. -/
def Viable (ts : List Token) : Prop := ∃ more, Accepted (ts ++ more)

/-- No determiner has a number that only nouns have. -/
def PlainDeterminers (ts : List Token) : Prop :=
  ∀ t ∈ ts, t.category = .determiner →
    t.number ≠ .singularCountable ∧ t.number ≠ .uncountable ∧ t.number ≠ .collective

theorem PlainDeterminers.subset {ts us : List Token} (h : PlainDeterminers ts) (hus : us ⊆ ts) :
    PlainDeterminers us := fun t ht => h t (hus ht)

theorem PlainDeterminers.of_append_right {ts us : List Token} (h : PlainDeterminers (ts ++ us)) :
    PlainDeterminers us := h.subset (List.subset_append_right ts us)

/-- A token with which a phrase can be completed. -/
def filler (c : Category) (n : Number) : Token := ⟨"", c, n, 0⟩

/-- Any other number of a determiner is one that a noun hands on. -/
theorem Number.agreement_eq_self {n : Number}
    (h : n ≠ .singularCountable ∧ n ≠ .uncountable ∧ n ≠ .collective) : n.agreement = n := by
  cases n <;> simp_all [agreement]

namespace Grammar

variable {finish : Nat} {read : List Token} {next : Option Token} {e : SyntaxError} {n : Number}

/-! ## Completing a phrase -/

/-- Any pronoun is a noun phrase. -/
theorem nounPhrase_filler : NounPhrase .any [filler .pronoun .any] :=
  .pronoun (@Core.pronoun (filler .pronoun .any) rfl)

/-- A determiner with adjectives is completed by a noun. -/
theorem exists_nounPhrase_of_determiner {d : Token} {adjectives : List Token}
    (hd : d.category = .determiner) (ha : ∀ a ∈ adjectives, a.category = .adjective)
    (hplain : PlainDeterminers (d :: adjectives)) :
    ∃ more n, NounPhrase n (d :: adjectives ++ more) := by
  have hnumber : d.number.agreement = d.number :=
    Number.agreement_eq_self (hplain d List.mem_cons_self hd)
  have hcore : Core (.noun d.number.agreement) (d :: (adjectives ++ [filler .noun d.number])) :=
    @Core.determined d (filler .noun d.number) adjectives hd ha rfl (Or.inr hnumber.symm)
  refine ⟨[filler .noun d.number], d.number.agreement, ?_⟩
  simpa using NounPhrase.noun hcore .nil

/-- A subject with auxiliaries is completed by a verb of its number. -/
theorem NounPhrase.completes {auxiliaries : List Token} (h : NounPhrase n read)
    (ha : ∀ a ∈ auxiliaries, a.category = .auxiliary) :
    ∃ more, Sentence n (read ++ (auxiliaries ++ more)) := by
  have hopening : Opening n (read ++ (auxiliaries ++ [filler .verb n])) := .intro h ha rfl rfl
  refine ⟨[filler .verb n], ?_⟩
  simpa using Sentence.intro hopening (.plain .nil)

theorem CoreBreak.completes (h : CoreBreak finish read next e) (hplain : PlainDeterminers read) :
    ∃ more n, NounPhrase n (read ++ more) := by
  have hpronoun : ∃ more n, NounPhrase n ([] ++ more) :=
    ⟨[filler .pronoun .any], .any, nounPhrase_filler⟩
  cases h with
  | missing => exact hpronoun
  | badStart _ => exact hpronoun
  | bareNoun _ _ => exact hpronoun
  | noNoun hd ha _ _ => exact exists_nounPhrase_of_determiner hd ha hplain
  | disagreement hd ha _ _ => exact exists_nounPhrase_of_determiner hd ha hplain

theorem ModifiersBreak.completes (h : ModifiersBreak finish read next e)
    (hplain : PlainDeterminers read) : ∃ more, Modifiers (read ++ more) := by
  cases h with
  | @intro ms core p _ _ hms hp hcore =>
    have hcoreplain : PlainDeterminers core :=
      hplain.subset fun t ht => List.mem_append_right ms (List.mem_cons_of_mem p ht)
    obtain ⟨more, n, hphrase⟩ := hcore.completes hcoreplain
    refine ⟨more, ?_⟩
    simpa using hms.snoc hp hphrase

theorem ComplementsBreak.completes (h : ComplementsBreak finish read next e)
    (hplain : PlainDeterminers read) : ∃ more, Complements (read ++ more) := by
  cases h with
  | object _ hcore =>
    obtain ⟨more, n, hphrase⟩ := hcore.completes hplain
    refine ⟨more, ?_⟩
    simpa using Complements.object hphrase .nil
  | @modifier cs core p _ _ hcs hp hcore =>
    have hmodifier : ModifiersBreak finish (p :: core) next e := .intro .nil hp hcore
    obtain ⟨more, hms⟩ := hmodifier.completes hplain.of_append_right
    refine ⟨more, ?_⟩
    simpa using hcs.append hms

theorem SentenceBreak.completes (h : SentenceBreak finish read next e)
    (hplain : PlainDeterminers read) : ∃ more n, Sentence n (read ++ more) := by
  have hverb {n : Number} {subject auxiliaries : List Token} (hsubject : NounPhrase n subject)
      (ha : ∀ a ∈ auxiliaries, a.category = .auxiliary) :
      ∃ more m, Sentence m (subject ++ auxiliaries ++ more) := by
    obtain ⟨more, hs⟩ := hsubject.completes ha
    exact ⟨more, n, by rwa [List.append_assoc]⟩
  have hnothing : ∀ a ∈ ([] : List Token), a.category = .auxiliary := List.forall_mem_nil _
  cases h with
  | subject hcore =>
    obtain ⟨more, n, hphrase⟩ := hcore.completes hplain
    obtain ⟨verb, hs⟩ := hphrase.completes hnothing
    exact ⟨more ++ verb, n, by simpa using hs⟩
  | @subjectModifier n core ms _ _ hcore hms =>
    obtain ⟨more, hms⟩ := hms.completes hplain.of_append_right
    have hphrase : NounPhrase n (core ++ (ms ++ more)) := .noun hcore hms
    obtain ⟨verb, hs⟩ := hphrase.completes hnothing
    exact ⟨more ++ verb, n, by simpa using hs⟩
  | noVerb hsubject ha _ _ _ => exact hverb hsubject ha
  | disagreement hsubject ha _ _ => exact hverb hsubject ha
  | @complements n opening cs _ _ ho hcs =>
    obtain ⟨more, hmore⟩ := hcs.completes hplain.of_append_right
    refine ⟨more, n, ?_⟩
    simpa using Sentence.intro ho hmore

/-- What a break leaves behind can become a program. -/
theorem SegmentBreak.viable (h : SegmentBreak finish read next e)
    (hplain : PlainDeterminers read) : Viable read := by
  have hcompletes : ∃ more n, Sentence n (read ++ more) := by
    cases h with
    | leading _ =>
      obtain ⟨verb, hs⟩ := nounPhrase_filler.completes (List.forall_mem_nil _)
      exact ⟨_, .any, hs⟩
    | sentence _ hsentence => exact hsentence.completes hplain
    | @overlong n opening cs t ho hcs _ _ _ =>
      have hs : Sentence n (opening ++ cs) := .intro ho hcs
      exact ⟨[], n, by rwa [List.append_nil]⟩
  obtain ⟨more, n, hs⟩ := hcompletes
  exact ⟨more, accepted_iff.2 ⟨1, .sentence hs⟩⟩

/-! ## Nothing helps after a break -/

/-- The first sentence of a program is read, wherever its end is said to be. -/
theorem Program.reads {k : Nat} {ts : List Token} (h : Program k ts) (finish : Nat) :
    ∃ rest, (scanSentence finish ts).Reads () rest := by
  cases h with
  | sentence hs => exact ⟨[], scanSentence_reads_iff.2 ⟨_, _, hs, Or.inl ⟨rfl, rfl⟩⟩⟩
  | trailing hs hc => exact ⟨[], scanSentence_reads_iff.2 ⟨_, _, hs, Or.inr ⟨_, hc, rfl⟩⟩⟩
  | cons hs hc _ => exact ⟨_, scanSentence_reads_iff.2 ⟨_, _, hs, Or.inr ⟨_, hc, rfl⟩⟩⟩

theorem SegmentBreak.not_accepted {left : List Token} (h : SegmentBreak finish read left.head? e) :
    ¬ Accepted (read ++ left) := by
  intro haccepted
  obtain ⟨k, hprogram⟩ := accepted_iff.1 haccepted
  obtain ⟨rest, hreads⟩ := hprogram.reads finish
  exact hreads.not_fails (scanSentence_fails_iff.2 ⟨read, left, rfl, h, rfl⟩)

/-- No tokens after the next one repair a break. -/
theorem SegmentBreak.not_viable {t : Token} (h : SegmentBreak finish read (some t) e) :
    ¬ Viable (read ++ [t]) := by
  intro hviable
  obtain ⟨more, haccepted⟩ := hviable
  rw [List.append_assoc] at haccepted
  have hbreak : SegmentBreak finish read ([t] ++ more).head? e := h
  exact hbreak.not_accepted haccepted

end Grammar

/-! ## The errors of a program -/

/-- Error `e` of the segment `g`, which begins at index `start`, is reported as early as possible:
it reports the end where more tokens are needed, and otherwise the first token that cannot stand
there. -/
def ReportedEarliest (tokens : List Token) (start : Nat) (g : List Token) (e : SyntaxError) :
    Prop :=
  if e.atEnd then Viable (tokens.drop start) ∧ ¬ Accepted (tokens.drop start)
  else ∃ i t, start ≤ i ∧ i < start + g.length ∧ tokens[i]? = some t ∧ t.position = e.position ∧
    Viable ((tokens.take i).drop start) ∧ ¬ Viable ((tokens.take (i + 1)).drop start)

/-- Nothing comes after a segment without a separator. -/
theorem eq_nil_of_not_separator {tokens g : List Token} {earlier later : List (List Token)}
    (h : segments tokens = earlier ++ g :: later) (hg : ∀ t ∈ g, t.isSeparator = false) :
    later = [] := by
  by_cases hlater : later = []
  · exact hlater
  · have hmem : g ∈ (segments tokens).dropLast := by
      rw [h, List.dropLast_append_of_ne_nil (by simp), List.dropLast_cons_of_ne_nil hlater]
      exact List.mem_append_right earlier List.mem_cons_self
    obtain ⟨c, hlast, hc⟩ := separator_of_mem_dropLast hmem
    exact absurd (List.mem_of_getLast? hlast) (not_mem_of_isSeparator hg hc)

theorem drop_take_append (before mid after : List Token) :
    ((before ++ mid ++ after).take (before.length + mid.length)).drop before.length = mid := by
  rw [← List.length_append, List.take_left, List.drop_left]

/-- A segment that breaks off at the end of a program. -/
theorem reportedEarliest_of_end {finish : Nat} {before read : List Token} {e : SyntaxError}
    (h : SegmentBreak finish read none e) (hplain : PlainDeterminers read) :
    ReportedEarliest (before ++ read) before.length read e := by
  have hend : e.atEnd = true := h.located
  have hbreak : SegmentBreak finish read ([] : List Token).head? e := h
  have hrefused := hbreak.not_accepted
  rw [List.append_nil] at hrefused
  unfold ReportedEarliest
  rw [if_pos hend, List.drop_left]
  exact ⟨h.viable hplain, hrefused⟩

/-- A segment that breaks off at a token. -/
theorem reportedEarliest_of_token {finish : Nat} {before read us after : List Token} {t : Token}
    {e : SyntaxError} (h : SegmentBreak finish read (some t) e) (hplain : PlainDeterminers read) :
    ReportedEarliest (before ++ (read ++ t :: us) ++ after) before.length (read ++ t :: us) e := by
  obtain ⟨hend, hposition, -⟩ := h.located
  have hbefore : before ++ (read ++ t :: us) ++ after = before ++ read ++ (t :: us ++ after) := by
    simp
  have hthrough : before ++ (read ++ t :: us) ++ after =
      before ++ (read ++ [t]) ++ (us ++ after) := by
    simp
  unfold ReportedEarliest
  rw [if_neg (by simp [hend])]
  refine ⟨before.length + read.length, t, Nat.le_add_right _ _, ?_, ?_, hposition.symm, ?_, ?_⟩
  · simp
  · have hindex : (before ++ read).length = before.length + read.length := List.length_append
    rw [hbefore, ← hindex, List.getElem?_append_right (Nat.le_refl _), Nat.sub_self]
    rfl
  · rw [hbefore, drop_take_append]
    exact h.viable hplain
  · have hslice := drop_take_append before (read ++ [t]) (us ++ after)
    rw [List.length_append, List.length_singleton, ← Nat.add_assoc] at hslice
    rw [hthrough, hslice]
    exact h.not_viable

theorem reportedEarliest_of_segment {tokens g : List Token} {earlier later : List (List Token)}
    {e : SyntaxError} (h : segments tokens = earlier ++ g :: later)
    (he : segmentOutcome g = .error e) (hplain : PlainDeterminers tokens) :
    ReportedEarliest tokens earlier.flatten.length g e := by
  have htokens : tokens = earlier.flatten ++ g ++ later.flatten := by
    rw [← flatten_segments tokens, h, List.flatten_append, List.flatten_cons, List.append_assoc]
  obtain ⟨read, left, rfl, hbreak⟩ := exists_segmentBreak he
  have hread : PlainDeterminers read := by
    refine hplain.subset fun t ht => ?_
    rw [htokens]
    exact List.mem_append_left _ (List.mem_append_right _ (List.mem_append_left left ht))
  cases left with
  | nil =>
    have hlater : later = [] := eq_nil_of_not_separator h (by simpa using hbreak.not_separator)
    rw [hlater, List.flatten_nil, List.append_nil, List.append_nil] at htokens
    rw [htokens, List.append_nil]
    exact reportedEarliest_of_end hbreak hread
  | cons t us =>
    rw [htokens]
    exact reportedEarliest_of_token hbreak hread

/-- The `k`-th value that is found comes from one element, before which `k` values are found. -/
theorem exists_of_getElem?_filterMap {α β : Type} {f : α → Option β} {l : List α} {k : Nat} {b : β}
    (h : (l.filterMap f)[k]? = some b) :
    ∃ before a after, l = before ++ a :: after ∧ before.filterMap f = (l.filterMap f).take k ∧
      f a = some b := by
  obtain ⟨hk, hb⟩ := List.getElem?_eq_some_iff.1 h
  have hsplit : l.filterMap f = (l.filterMap f).take k ++ b :: (l.filterMap f).drop (k + 1) := by
    rw [← hb, List.getElem_cons_drop, List.take_append_drop]
  obtain ⟨l₁, l₂, hl, hl₁, hl₂⟩ := List.filterMap_eq_append_iff.1 hsplit
  obtain ⟨skipped, a, after, hl₂', hnone, ha, -⟩ := List.filterMap_eq_cons_iff.1 hl₂
  refine ⟨l₁ ++ skipped, a, after, ?_, ?_, ha⟩
  · rw [hl, hl₂', List.append_assoc]
  · rw [List.filterMap_append, hl₁, List.filterMap_eq_nil_iff.2 hnone, List.append_nil]

/-- The errors of a program are those of its segments; a program of separators only has none. -/
theorem parseProgram_errors {tokens : List Token} (h : (parseProgram tokens).errors ≠ []) :
    (parseProgram tokens).errors = (segments tokens).filterMap segmentError? := by
  cases hall : tokens.all Token.isSeparator with
  | true =>
    rw [parseProgram, if_pos hall] at h
    exact absurd rfl h
  | false => rw [parseProgram_eq hall, segmentReport_eq]

/-- Every error of a program is that of a segment, and comes at the earliest token possible. -/
theorem parseProgram_errors_earliest (tokens : List Token) (hplain : PlainDeterminers tokens)
    {k : Nat} {e : SyntaxError} (h : (parseProgram tokens).errors[k]? = some e) :
    ∃ earlier g later, segments tokens = earlier ++ g :: later ∧
      earlier.filterMap segmentError? = (parseProgram tokens).errors.take k ∧
      segmentError? g = some e ∧ ReportedEarliest tokens earlier.flatten.length g e := by
  have herrors := parseProgram_errors (List.ne_nil_of_mem (List.mem_of_getElem? h))
  rw [herrors] at h ⊢
  obtain ⟨earlier, g, later, hsegments, hearlier, hg⟩ := exists_of_getElem?_filterMap h
  refine ⟨earlier, g, later, hsegments, hearlier, hg, ?_⟩
  exact reportedEarliest_of_segment hsegments (segmentError?_eq_some.1 hg) hplain

/-- The words "these dog runs". -/
def theseDogRuns : List Token :=
  [⟨"these", .determiner, .plural, 1⟩, ⟨"dog", .noun, .singularCountable, 2⟩,
    ⟨"runs", .verb, .singular, 3⟩]

theorem segmentOutcome_theseDogRuns :
    segmentOutcome theseDogRuns =
      .error (.determinerAgreement "these" .plural "dog" .singularCountable 2) := by
  have hbreak : SegmentBreak (endPosition theseDogRuns) [⟨"these", .determiner, .plural, 1⟩]
      (theseDogRuns.drop 1).head?
      (.determinerAgreement "these" .plural "dog" .singularCountable 2) :=
    .sentence rfl (.subject (.disagreement rfl (List.forall_mem_nil _) rfl (by decide)))
  exact hbreak.fails.1

/-- After "these" a program can go on, but not with "dog". -/
theorem theseDogRuns_errors_earliest :
    ∃ earlier g later, segments theseDogRuns = earlier ++ g :: later ∧
      earlier.filterMap segmentError? = (parseProgram theseDogRuns).errors.take 0 ∧
      segmentError? g = some (.determinerAgreement "these" .plural "dog" .singularCountable 2) ∧
      ReportedEarliest theseDogRuns earlier.flatten.length g
        (.determinerAgreement "these" .plural "dog" .singularCountable 2) := by
  have hplain : PlainDeterminers theseDogRuns := by
    unfold PlainDeterminers
    decide
  have hsegments : segments theseDogRuns = [theseDogRuns] :=
    segments_of_not_separator (by decide) (by decide)
  have herror : (parseProgram theseDogRuns).errors[0]? =
      some (.determinerAgreement "these" .plural "dog" .singularCountable 2) := by
    have hg := segmentError?_eq_some.2 segmentOutcome_theseDogRuns
    rw [parseProgram_eq (by decide), segmentReport_eq, hsegments, List.filterMap_cons, hg]
    rfl
  exact parseProgram_errors_earliest theseDogRuns hplain herror

end Concord
