import Mathlib.Data.List.Basic
import Concord.Proofs.Grammar.EarliestError
import Concord.Proofs.Token.Joining

/-!
# The order of the errors

The tokens of a text have increasing positions, perhaps with gaps. The errors of a program then come
in the order of the input: the position of an error is that of a token of its own segment, and the
segments lie one after the other. Only an error that reports the end of the input has a position of
its own, right after the last token. It can only be that of the last segment, because every other
segment ends with a separator.

There may be no position after the last token: the greatest of all has none. No text is long enough
for that, but a list of tokens may end with it, and then the end of the input is reported at 0
(`commaTheGreatest_errors_not_in_order`).

Main statements: `segmentError_position`, where the position of an error comes from;
`errors_increasing`, the positions increase; `parseProgram_errors_in_order`, each lies in its
segment or right after the end.
-/

namespace Concord

open Grammar

/-! ## Positions of tokens -/

/-- Every token has a greater position than those before it. -/
def Increasing (ts : List Token) : Prop := ts.Pairwise fun t u => t.position < u.position

theorem position_of_classify {lexicon : Lexicon} {word : String} {position : Nat} {t : Token}
    (h : classify lexicon word position = .ok t) : t.position = position := by
  unfold classify at h
  split at h
  · rw [← Except.ok.inj h]
  · cases hentry : lexicon word with
    | none => simp [hentry] at h
    | some entry =>
      rw [hentry] at h
      rw [← Except.ok.inj h]

/-- Units are numbered one after the other, those that give no token included. -/
theorem positions_classifyUnits {lexicon : Lexicon} {us : List (List Char)} {position : Nat}
    {ts : List Token} (h : classifyUnits lexicon position us = .ok ts) :
    Increasing ts ∧ ∀ t ∈ ts, position ≤ t.position ∧ t.position < position + us.length := by
  induction us generalizing position ts with
  | nil =>
    obtain rfl : [] = ts := Except.ok.inj h
    exact ⟨List.Pairwise.nil, List.forall_mem_nil _⟩
  | cons unit us ih =>
    rw [classifyUnits] at h
    rw [List.length_cons]
    split at h
    · obtain ⟨hincreasing, hbetween⟩ := ih h
      refine ⟨hincreasing, ?_⟩
      intro t ht
      have hlater := hbetween t ht
      omega
    · split at h
      · simp at h
      · next token htoken =>
        have hposition := position_of_classify htoken
        cases hrest : classifyUnits lexicon (position + 1) us with
        | error e => simp [hrest, Except.map] at h
        | ok rest =>
          obtain ⟨hincreasing, hbetween⟩ := ih hrest
          rw [hrest] at h
          obtain rfl : token :: rest = ts := Except.ok.inj h
          constructor
          · refine List.Pairwise.cons ?_ hincreasing
            intro t ht
            have hlater := hbetween t ht
            omega
          · intro t ht
            rcases List.mem_cons.1 ht with rfl | ht
            · omega
            · have hlater := hbetween t ht
              omega

theorem increasing_of_tokenize {lexicon : Lexicon} {text : String} {ts : List Token}
    (h : tokenize lexicon text = .ok ts) : Increasing ts :=
  (positions_classifyUnits h).1

/-- No token of a text has a position greater than the number of units. -/
theorem position_le_of_tokenize {lexicon : Lexicon} {text : String} {ts : List Token}
    (h : tokenize lexicon text = .ok ts) {t : Token} (ht : t ∈ ts) :
    t.position ≤ unitCount text := by
  have hlt := ((positions_classifyUnits h).2 t ht).2
  rw [length_units] at hlt
  omega

theorem endsInRange_of_tokenize {lexicon : Lexicon} {text : String} {ts : List Token}
    (h : tokenize lexicon text = .ok ts) (htext : text.length + 1 < positionLimit) :
    EndsInRange ts := by
  intro t ht
  have hposition := position_le_of_tokenize h (List.mem_of_getLast? ht)
  have hunits := unitCount_le text
  omega

theorem Increasing.first_le {ts : List Token} {first t : Token} (h : Increasing ts)
    (hfirst : ts.head? = some first) (ht : t ∈ ts) : first.position ≤ t.position := by
  obtain ⟨rest, rfl⟩ := List.head?_eq_some_iff.1 hfirst
  rcases List.mem_cons.1 ht with rfl | ht
  · exact Nat.le_refl _
  · exact Nat.le_of_lt (List.rel_of_pairwise_cons h ht)

theorem Increasing.le_last {ts : List Token} {last t : Token} (h : Increasing ts)
    (hlast : ts.getLast? = some last) (ht : t ∈ ts) : t.position ≤ last.position := by
  obtain ⟨init, rfl⟩ := List.getLast?_eq_some_iff.1 hlast
  rcases List.mem_append.1 ht with ht | ht
  · have hacross := (List.pairwise_append.1 h).2.2
    exact Nat.le_of_lt (hacross t ht last (List.mem_singleton_self last))
  · exact Nat.le_of_eq (congrArg Token.position (List.mem_singleton.1 ht))

/-! ## Segments one after the other -/

theorem Increasing.segment {ts g : List Token} (h : Increasing ts) (hg : g ∈ segments ts) :
    Increasing g := by
  rw [Increasing, ← flatten_segments ts, List.pairwise_flatten] at h
  exact h.1 g hg

theorem Increasing.segments_apart {ts : List Token} (h : Increasing ts) :
    (segments ts).Pairwise fun g g' => ∀ t ∈ g, ∀ u ∈ g', t.position < u.position := by
  rw [Increasing, ← flatten_segments ts, List.pairwise_flatten] at h
  exact h.2

/-- A segment with another one after it has a separator. -/
theorem segments_separated (ts : List Token) :
    (segments ts).Pairwise fun g _ => ∃ c ∈ g, c.isSeparator = true := by
  induction ts using segments_induction with
  | nil => exact List.Pairwise.nil
  | last g hne hg =>
    rw [segments_of_not_separator hg hne]
    exact List.pairwise_singleton _ _
  | cut g c ts hg hc ih =>
    rw [segments_append hg hc]
    refine List.Pairwise.cons ?_ ih
    intro _ _
    exact ⟨c, List.mem_append_right g List.mem_cons_self, hc⟩

/-! ## Positions of errors -/

theorem Grammar.SegmentBreak.position_of_none {finish : Nat} {read : List Token} {e : SyntaxError}
    (h : SegmentBreak finish read none e) : e.position = finish := by
  cases h with
  | sentence _ hsentence => exact hsentence.diagnosis.position_of_none

/-- An error has the position of a token of its segment, or that of the end of a segment without a
separator. -/
theorem segmentError_position {g : List Token} {e : SyntaxError} (h : segmentError? g = some e) :
    (e.atEnd = false ∧ ∃ t ∈ g, e.position = t.position) ∨
      (e.atEnd = true ∧ (∀ t ∈ g, t.isSeparator = false) ∧ e.position = endPosition g) := by
  obtain ⟨read, left, rfl, hbreak⟩ := exists_segmentBreak (segmentError?_eq_some.1 h)
  cases left with
  | nil =>
    refine Or.inr ⟨hbreak.located, ?_, hbreak.position_of_none⟩
    simpa using hbreak.not_separator
  | cons t us =>
    obtain ⟨hend, hposition, -⟩ := hbreak.located
    exact Or.inl ⟨hend, t, List.mem_append_right read List.mem_cons_self, hposition⟩

/-- A segment without a separator ends where the input ends. -/
theorem segment_at_end {tokens g : List Token} {earlier later : List (List Token)}
    (hsegments : segments tokens = earlier ++ g :: later) (hg : ∀ t ∈ g, t.isSeparator = false) :
    later = [] ∧ tokens.getLast? = g.getLast? ∧ endPosition tokens = endPosition g := by
  have hmem : g ∈ segments tokens := by simp [hsegments]
  have hne : g ≠ [] := (segment_of_mem hmem).1
  have hlater : later = [] := eq_nil_of_not_separator hsegments hg
  have htokens : tokens = earlier.flatten ++ g := by
    rw [← flatten_segments tokens, hsegments, hlater]
    simp
  refine ⟨hlater, ?_, ?_⟩
  · rw [htokens, List.getLast?_append, List.getLast?_eq_some_getLast hne]
    rfl
  · rw [htokens, endPosition_append hne]

/-- What lies before the last token lies before the end, if there is a position for the end. -/
theorem lt_position_of_atEnd {tokens g : List Token} {e : SyntaxError} {p : Nat}
    (hg : g ∈ segments tokens) (h : segmentError? g = some e) (hend : e.atEnd = true)
    (hrange : EndsInRange tokens) (hp : ∀ t ∈ g, p < t.position) : p < e.position := by
  rcases segmentError_position h with ⟨hfound, -⟩ | ⟨-, hseparator, hposition⟩
  · simp [hfound] at hend
  · obtain ⟨earlier, later, hsegments⟩ := List.append_of_mem hg
    obtain ⟨-, hlast, hfinish⟩ := segment_at_end hsegments hseparator
    have hne : g ≠ [] := (segment_of_mem hg).1
    rw [List.getLast?_eq_some_getLast hne] at hlast
    have hafter := (pastLast_endPosition tokens).2 _ hlast (hrange _ hlast)
    have hbefore := hp _ (List.getLast_mem hne)
    rw [hposition, ← hfinish, hafter]
    omega

/-- The errors of the segments come in the order of the input. For an error at the end of the input
this takes a position after the last token. -/
theorem errors_increasing {ts : List Token} (h : Increasing ts) :
    ((segments ts).filterMap segmentError?).Pairwise fun e e' =>
      (e'.atEnd = true → EndsInRange ts) → e.position < e'.position := by
  rw [List.pairwise_filterMap]
  refine (h.segments_apart.and (segments_separated ts)).imp_of_mem ?_
  intro g g' _ hg' hapart e he e' he' hrange
  obtain ⟨hbefore, c, hc, hseparator⟩ := hapart
  -- The separator of `g` keeps its error from being about the end of the input.
  rcases segmentError_position he with ⟨-, t, ht, hposition⟩ | ⟨-, hg, -⟩
  · rw [hposition]
    rcases segmentError_position he' with ⟨-, t', ht', hposition'⟩ | ⟨hend', -, -⟩
    · rw [hposition']
      exact hbefore t ht t' ht'
    · exact lt_position_of_atEnd hg' he' hend' (hrange hend') (hbefore t ht)
  · exact absurd hc (not_mem_of_isSeparator hg hseparator)

/-- Error `e` of the segment `g` has a position between those of the first and the last token of the
segment, unless it reports the end of the input: then it comes right after the last of all, if a
position does. -/
def Placed (tokens g : List Token) (e : SyntaxError) : Prop :=
  ∃ first last, g.head? = some first ∧ g.getLast? = some last ∧
    if e.atEnd then tokens.getLast? = some last ∧ PastLast tokens e.position
    else first.position ≤ e.position ∧ e.position ≤ last.position

theorem placed_of_segmentError {tokens g : List Token} {earlier later : List (List Token)}
    {e : SyntaxError} (h : Increasing tokens) (hsegments : segments tokens = earlier ++ g :: later)
    (he : segmentError? g = some e) :
    Placed tokens g e ∧ (e.atEnd = true → later = []) := by
  have hmem : g ∈ segments tokens := by simp [hsegments]
  have hne : g ≠ [] := (segment_of_mem hmem).1
  have hfirst := List.head?_eq_some_head hne
  have hlast := List.getLast?_eq_some_getLast hne
  rcases segmentError_position he with ⟨hend, t, ht, hposition⟩ | ⟨hend, hg, hposition⟩
  · constructor
    · refine ⟨_, _, hfirst, hlast, ?_⟩
      rw [if_neg (by simp [hend]), hposition]
      exact ⟨(h.segment hmem).first_le hfirst ht, (h.segment hmem).le_last hlast ht⟩
    · simp [hend]
  · obtain ⟨hlater, htokens, hfinish⟩ := segment_at_end hsegments hg
    constructor
    · refine ⟨_, _, hfirst, hlast, ?_⟩
      rw [if_pos hend, hposition, ← hfinish]
      exact ⟨htokens.trans hlast, pastLast_endPosition tokens⟩
    · intro _
      exact hlater

/-- The tokens of every text have increasing positions, and a position comes after the last of them.
Where positions increase, so do those of the errors at tokens, and those of all errors if a position
comes after the last token. Every error lies in its own segment; only one that reports the end of
the input comes after it, and only as the last error. -/
theorem parseProgram_errors_in_order :
    (∀ lexicon text tokens, tokenize lexicon text = .ok tokens →
      Increasing tokens ∧ (text.length + 1 < positionLimit → EndsInRange tokens)) ∧
    ∀ tokens, Increasing tokens →
      ((parseProgram tokens).errors.filter fun e => !e.atEnd).Pairwise
        (fun e e' => e.position < e'.position) ∧
      (EndsInRange tokens →
        (parseProgram tokens).errors.Pairwise fun e e' => e.position < e'.position) ∧
      ∀ k e, (parseProgram tokens).errors[k]? = some e →
        ∃ earlier g later, segments tokens = earlier ++ g :: later ∧
          earlier.filterMap segmentError? = (parseProgram tokens).errors.take k ∧
          segmentError? g = some e ∧ Placed tokens g e ∧
          (e.atEnd = true → k + 1 = (parseProgram tokens).errors.length) := by
  constructor
  · intro lexicon text tokens htokens
    exact ⟨increasing_of_tokenize htokens, endsInRange_of_tokenize htokens⟩
  intro tokens h
  by_cases hnil : (parseProgram tokens).errors = []
  · simp [hnil]
  rw [parseProgram_errors hnil]
  have hincreasing := errors_increasing h
  refine ⟨?_, ?_, ?_⟩
  · refine (hincreasing.filter _).imp_of_mem ?_
    intro e e' _ he' hlt
    have hfound := (List.mem_filter.1 he').2
    exact hlt fun hend => by simp [hend] at hfound
  · intro hrange
    exact hincreasing.imp fun hlt => hlt fun _ => hrange
  intro k e hk
  obtain ⟨earlier, g, later, hsegments, hearlier, he⟩ := exists_of_getElem?_filterMap hk
  obtain ⟨hplaced, hlast⟩ := placed_of_segmentError h hsegments he
  refine ⟨earlier, g, later, hsegments, hearlier, he, hplaced, ?_⟩
  intro hend
  have herrors : (segments tokens).filterMap segmentError? =
      earlier.filterMap segmentError? ++ [e] := by
    rw [hsegments, hlast hend]
    simp [he]
  obtain ⟨hlt, -⟩ := List.getElem?_eq_some_iff.1 hk
  have hlength := congrArg List.length hearlier
  rw [List.length_take, Nat.min_eq_left (Nat.le_of_lt hlt)] at hlength
  rw [herrors, List.length_append, hlength, List.length_singleton]

/-- A comma, and the word "the" at the greatest position. -/
def commaTheGreatest : List Token := [commaAt 5, theAt (positionLimit - 1)]

/-- No position comes after the greatest. The end of the input is then reported at 0, and the errors
are not in order. -/
theorem commaTheGreatest_errors_not_in_order :
    Increasing commaTheGreatest ∧
    (parseProgram commaTheGreatest).errors = [.leadingSeparator 5, .unexpectedEnd .noun 0] ∧
    ¬ (parseProgram commaTheGreatest).errors.Pairwise (fun e e' => e.position < e'.position) := by
  have hsegments : segments commaTheGreatest =
      [[commaAt 5], [theAt (positionLimit - 1)]] := by
    decide
  have hcomma : segmentError? [commaAt 5] = some (.leadingSeparator 5) :=
    segmentError?_eq_some.2 (segmentOutcome_separator rfl)
  have hthe : segmentError? [theAt (positionLimit - 1)] = some (.unexpectedEnd .noun 0) := by
    have hbreak : SegmentBreak (endPosition [theAt (positionLimit - 1)])
        [theAt (positionLimit - 1)] ([] : List Token).head? (.unexpectedEnd .noun 0) :=
      .sentence rfl (.subject (coreBreak_theAt _ _))
    exact segmentError?_eq_some.2 hbreak.fails.1
  have herrors : (parseProgram commaTheGreatest).errors =
      [.leadingSeparator 5, .unexpectedEnd .noun 0] := by
    rw [parseProgram_eq (by decide), segmentReport_eq, hsegments]
    simp only [List.filterMap_cons, List.filterMap_nil, hcomma, hthe]
  refine ⟨?_, herrors, ?_⟩
  · unfold Increasing
    decide
  · rw [herrors]
    decide

/-- A lexicon of two words. -/
def dogLexicon : Lexicon
  | "the" => some ⟨.determiner, .any⟩
  | "dogs" => some ⟨.noun, .plural⟩
  | _ => none

/-- The tokens of "Dogs, the ... dogs", where the fourth unit gives none. -/
def dogsTheDogs : List Token :=
  [⟨"dogs", .noun, .plural, 1⟩, ⟨",", .comma, .any, 2⟩, ⟨"the", .determiner, .any, 3⟩,
    ⟨"dogs", .noun, .plural, 5⟩]

/-- Both sentences miss their verb: the first at the comma, the second after the last token. -/
theorem errors_dogsTheDogs :
    (parseProgram dogsTheDogs).errors =
      [.unexpectedToken .verb .comma "," 2, .unexpectedEnd .verb 6] := by
  have hsegments : segments dogsTheDogs = [dogsTheDogs.take 2, dogsTheDogs.drop 2] := by decide
  have hfirst : segmentError? (dogsTheDogs.take 2) =
      some (.unexpectedToken .verb .comma "," 2) := by
    have hsubject : NounPhrase .plural [⟨"dogs", .noun, .plural, 1⟩] :=
      .noun (@Core.bare ⟨"dogs", .noun, .plural, 1⟩ rfl (Or.inl rfl)) .nil
    have hbreak : SegmentBreak (endPosition (dogsTheDogs.take 2)) [⟨"dogs", .noun, .plural, 1⟩]
        [⟨",", .comma, .any, 2⟩].head? (.unexpectedToken .verb .comma "," 2) :=
      .sentence rfl (.noVerb hsubject (List.forall_mem_nil _) (fun _ => Or.inr (by decide))
        (by decide) (.found (by decide)))
    exact segmentError?_eq_some.2 hbreak.fails.1
  have hsecond : segmentError? (dogsTheDogs.drop 2) = some (.unexpectedEnd .verb 6) := by
    have hsubject : NounPhrase .plural (dogsTheDogs.drop 2) :=
      .noun (@Core.determined ⟨"the", .determiner, .any, 3⟩ ⟨"dogs", .noun, .plural, 5⟩ [] rfl
        (List.forall_mem_nil _) rfl (Or.inl rfl)) .nil
    have hbreak : SegmentBreak (endPosition (dogsTheDogs.drop 2)) (dogsTheDogs.drop 2)
        ([] : List Token).head? (.unexpectedEnd .verb 6) :=
      .sentence rfl (.noVerb hsubject (List.forall_mem_nil _) (fun _ => Or.inr (by decide))
        (by decide) .atEnd)
    exact segmentError?_eq_some.2 hbreak.fails.1
  rw [parseProgram_eq (by decide), segmentReport_eq, hsegments]
  simp only [List.filterMap_cons, List.filterMap_nil, hfirst, hsecond]

/-- The positions increase over the gap, and the second error comes right after the last token. -/
theorem dogsTheDogs_errors_in_order :
    tokenize dogLexicon "Dogs, the ... dogs" = .ok dogsTheDogs ∧ Increasing dogsTheDogs ∧
      EndsInRange dogsTheDogs ∧
      (2 < 6 ∧ ∃ g ∈ segments dogsTheDogs, Placed dogsTheDogs g (.unexpectedEnd .verb 6)) := by
  have htokens : tokenize dogLexicon "Dogs, the ... dogs" = .ok dogsTheDogs := by
    decide +kernel
  obtain ⟨hincreasing, htext⟩ := parseProgram_errors_in_order.1 _ _ _ htokens
  have hrange : EndsInRange dogsTheDogs := htext (by decide +kernel)
  obtain ⟨-, hpositions, herrors⟩ := parseProgram_errors_in_order.2 dogsTheDogs hincreasing
  rw [errors_dogsTheDogs] at hpositions herrors
  obtain ⟨earlier, g, later, hsegments, -, -, hplaced, -⟩ := herrors 1 _ rfl
  refine ⟨htokens, hincreasing, hrange, ?_, g, by simp [hsegments], hplaced⟩
  exact List.rel_of_pairwise_cons (hpositions hrange) (List.mem_singleton_self _)

end Concord
