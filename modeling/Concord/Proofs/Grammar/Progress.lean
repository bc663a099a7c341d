import Concord.Proofs.Grammar.MaximalPhrase
import Concord.Proofs.Grammar.Nesting
import Concord.Proofs.Grammar.Recovery

/-!
# Reading comes to an end

A program is read by a loop that turns as long as tokens are left, and its noun phrases are read by
recursion. Some turns pass no token: a sentence may fail at its first one. But such a turn changes
the mode, and the next one passes the separator. So a segment takes one turn that scans it, and at
most one more that recovers from it.

Main statements: `Stage.exists_turns_segment`, the turns for one segment; `Stage.exists_turns`,
those up to any segment; `parseProgram_progresses`, what is passed by every turn, production and
level of the recursion, and how many turns there are.
-/

namespace Concord

/-! ## Turns of the loop -/

theorem afterSeparator_suffix (ts : List Token) : afterSeparator ts <:+ ts := by
  induction ts with
  | nil => exact List.suffix_rfl
  | cons t ts ih =>
    rw [afterSeparator]
    split
    · exact List.suffix_cons t ts
    · exact ih.trans (List.suffix_cons t ts)

/-- Recovering passes the tokens through the next separator, or all where there is none. -/
theorem afterSeparator_cases (ts : List Token) :
    (∃ g c, ts = g ++ [c] ++ afterSeparator ts ∧ c.isSeparator = true ∧
      ∀ t ∈ g, t.isSeparator = false) ∨
    (afterSeparator ts = [] ∧ ∀ t ∈ ts, t.isSeparator = false) := by
  induction ts using segments_induction with
  | nil => exact Or.inr ⟨rfl, List.forall_mem_nil _⟩
  | last g hne hg => exact Or.inr ⟨afterSeparator_of_not_separator hg, hg⟩
  | cut g c ts hg hc _ =>
    refine Or.inl ⟨g, c, ?_, hc, hg⟩
    rw [afterSeparator_append hg hc, List.append_assoc, List.singleton_append]

namespace Stage

variable {finish : Nat}

/-- From one stage the loop turns at the stages `turns`, one after the other, and then is at the
last stage. It turns only while tokens are left. -/
inductive Turns (finish : Nat) : Stage → List Stage → Stage → Prop
  | refl (s : Stage) : Turns finish s [] s
  | turn {s s' : Stage} {turns : List Stage} : s.rest ≠ [] →
      Turns finish (s.advance finish).2 turns s' → Turns finish s (s :: turns) s'

/-- The report of what is found in some turns. -/
def foundIn (finish : Nat) (turns : List Stage) : Report :=
  turns.foldr (fun s r => r.record (s.advance finish).1) .empty

theorem advance_suffix (finish : Nat) (s : Stage) : (s.advance finish).2.rest <:+ s.rest := by
  obtain ⟨mode, ts⟩ := s
  cases mode with
  | recovering => exact afterSeparator_suffix ts
  | scanning =>
    rw [advance_scanning]
    exact (scanSentence finish ts).suffix

namespace Turns

variable {s s' s'' : Stage} {turns more : List Stage}

theorem append (h : Turns finish s turns s') (hmore : Turns finish s' more s'') :
    Turns finish s (turns ++ more) s'' := by
  induction h with
  | refl s => exact hmore
  | turn hne _ ih => exact .turn hne (ih hmore)

theorem suffix (h : Turns finish s turns s') : s'.rest <:+ s.rest := by
  induction h with
  | refl s => exact List.suffix_rfl
  | @turn s s' turns _ _ ih => exact ih.trans (advance_suffix finish s)

/-- Turns that reach the end give the report of the whole run. -/
theorem run_eq (h : Turns finish s turns s') (hend : s'.rest = []) :
    s.run finish = foundIn finish turns := by
  induction h with
  | refl s => rw [run, dif_pos hend, foundIn, List.foldr_nil]
  | turn hne _ ih =>
    rw [run_of_ne_nil hne, ih hend]
    rfl

/-- The loop turns in one way only, so there are no more turns than those that reach the end. -/
theorem length_le (hall : Turns finish s turns s') (hend : s'.rest = [])
    (h : Turns finish s more s'') : more.length ≤ turns.length := by
  induction hall generalizing more with
  | refl s =>
    cases h with
    | refl => exact Nat.le_refl _
    | turn hne _ => exact absurd hend hne
  | turn _ _ ih =>
    cases h with
    | refl => exact Nat.zero_le _
    | turn _ hmore => exact Nat.succ_le_succ (ih hend hmore)

end Turns

/-- A segment is done with in at most two turns. If tokens are left, the loop scans then. -/
theorem exists_turns_segment {ts rest : List Token} {outcome : Except SyntaxError Unit}
    (hne : ts ≠ [])
    (h : (outcome = .ok () ∧ (scanSentence finish ts).Reads () rest) ∨
      ∃ e left, outcome = .error e ∧ (scanSentence finish ts).Fails e left ∧
        afterSeparator left = rest) :
    ∃ turns s, Turns finish ⟨.scanning, ts⟩ turns s ∧ turns.length ≤ 2 ∧ s.rest = rest ∧
      (rest ≠ [] → s = ⟨.scanning, rest⟩) := by
  rcases h with ⟨-, hreads⟩ | ⟨e, left, -, hfails, rfl⟩
  · have hscan : Turns finish ⟨.scanning, ts⟩ [⟨.scanning, ts⟩] ⟨.scanning, rest⟩ := by
      refine .turn hne ?_
      rw [advance_of_reads hreads]
      exact .refl _
    exact ⟨_, _, hscan, by simp, rfl, fun _ => rfl⟩
  · have hscan : Turns finish ⟨.scanning, ts⟩ [⟨.scanning, ts⟩] ⟨.recovering, left⟩ := by
      refine .turn hne ?_
      rw [advance_of_fails hfails]
      exact .refl _
    by_cases hleft : left = []
    · subst hleft
      exact ⟨_, _, hscan, by simp, rfl, fun hrest => absurd rfl hrest⟩
    · have hrecover : Turns finish ⟨.recovering, left⟩ [⟨.recovering, left⟩]
          ⟨.scanning, afterSeparator left⟩ := .turn hleft (.refl _)
      exact ⟨_, _, hscan.append hrecover, by simp, rfl, fun _ => rfl⟩

/-- The loop comes to every segment with at most two turns for each one before it. At most two more
take it to the tokens after this segment. -/
theorem exists_turns {ts g : List Token} {before after : List (List Token)}
    (hfinish : ts ≠ [] → endPosition ts = finish) (h : segments ts = before ++ g :: after) :
    ∃ earlier turns s, Turns finish ⟨.scanning, ts⟩ earlier ⟨.scanning, g ++ after.flatten⟩ ∧
      earlier.length ≤ 2 * before.length ∧
      Turns finish ⟨.scanning, g ++ after.flatten⟩ turns s ∧ turns.length ≤ 2 ∧
      s.rest = after.flatten := by
  induction ts using segments_induction generalizing before with
  | nil => simp [segments] at h
  | last g' hne hg =>
    rw [segments_of_not_separator hg hne] at h
    obtain ⟨rfl, rfl, rfl⟩ : before = [] ∧ g = g' ∧ after = [] := by
      cases before <;> simp_all
    obtain rfl := hfinish hne
    obtain ⟨turns, s, hturns, hlength, hrest, -⟩ := exists_turns_segment hne (scanSentence_last hg)
    rw [List.flatten_nil, List.append_nil]
    exact ⟨[], turns, s, .refl _, Nat.zero_le _, hturns, hlength, hrest⟩
  | cut g' c ts hg hc ih =>
    have hrest : ts ≠ [] → endPosition ts = finish := by
      intro hne
      rw [← hfinish (by simp), List.append_cons, endPosition_append hne]
    obtain ⟨turns, s, hturns, hlength, hs, hscanning⟩ :=
      exists_turns_segment (by simp) (@scanSentence_cut finish g' ts c hg hc)
    rw [segments_append hg hc] at h
    cases before with
    | nil =>
      obtain ⟨rfl, rfl⟩ := List.cons.inj h
      rw [flatten_segments, ← List.append_cons]
      exact ⟨[], turns, s, .refl _, Nat.zero_le _, hturns, hlength, hs⟩
    | cons g₀ before =>
      obtain ⟨-, hsegments⟩ := List.cons.inj h
      have hne : ts ≠ [] := by
        rintro rfl
        simp [segments] at hsegments
      obtain ⟨earlier, turns', s', hearlier, hcount, hturns', hlength', hs'⟩ := ih hrest hsegments
      obtain rfl := hscanning hne
      refine ⟨turns ++ earlier, turns', s', hturns.append hearlier, ?_, hturns', hlength', hs'⟩
      rw [List.length_append, List.length_cons]
      omega

end Stage

/-! ## The loop over a program -/

/-- Reading the program `tokens`, the loop turns at the stages `turns` and then is at the stage `s`.
It does not begin where there is nothing but separators. -/
def Loop (tokens : List Token) (turns : List Stage) (s : Stage) : Prop :=
  tokens.all Token.isSeparator = false ∧
    Stage.Turns (endPosition tokens) ⟨.scanning, tokens⟩ turns s

/-- Reading the program `tokens`, the loop gets to the stage `s`. -/
def Reached (tokens : List Token) (s : Stage) : Prop := ∃ turns, Loop tokens turns s

namespace Loop

variable {tokens : List Token} {turns : List Stage} {s : Stage}

/-- The loop comes to every segment and takes at most two turns for it. -/
theorem exists_segment (h : tokens.all Token.isSeparator = false) {g : List Token}
    {before after : List (List Token)} (hg : segments tokens = before ++ g :: after) :
    ∃ earlier here s, Loop tokens earlier ⟨.scanning, g ++ after.flatten⟩ ∧
      Loop tokens (earlier ++ here) s ∧ s.rest = after.flatten ∧ here.length ≤ 2 ∧
      earlier.length ≤ 2 * before.length := by
  obtain ⟨earlier, here, s, hearlier, hcount, hhere, hlength, hs⟩ :=
    Stage.exists_turns (fun _ => rfl) hg
  exact ⟨earlier, here, s, ⟨h, hearlier⟩, ⟨h, hearlier.append hhere⟩, hs, hlength, hcount⟩

/-- The loop comes to an end, with at most two turns for each segment. -/
theorem exists_end (h : tokens.all Token.isSeparator = false) :
    ∃ turns s, Loop tokens turns s ∧ s.rest = [] ∧
      turns.length ≤ 2 * (segments tokens).length := by
  have htokens : tokens ≠ [] := by
    rintro rfl
    simp at h
  have hne : segments tokens ≠ [] := segments_ne_nil htokens
  have hlast := (List.dropLast_concat_getLast hne).symm
  obtain ⟨earlier, here, s, -, hloop, hs, hlength, hcount⟩ := exists_segment h hlast
  refine ⟨earlier ++ here, s, hloop, hs, ?_⟩
  have hsegments := congrArg List.length hlast
  rw [List.length_append, List.length_singleton] at hsegments
  rw [List.length_append]
  omega

theorem length_le (h : Loop tokens turns s) : turns.length ≤ 2 * (segments tokens).length := by
  obtain ⟨all, s', hall, hend, hlength⟩ := exists_end h.1
  exact Nat.le_trans (hall.2.length_le hend h.2) hlength

theorem parseProgram_eq (h : Loop tokens turns s) (hend : s.rest = []) :
    parseProgram tokens = Stage.foundIn (endPosition tokens) turns := by
  rw [parseProgram, if_neg (by simp [h.1])]
  exact h.2.run_eq hend

end Loop

/-! ## Places passed -/

namespace Cursor

variable {c c' : Cursor} {α : Type} {production : Nat → (ts : List Token) → Step ts α}

/-- The stage of the loop at a cursor. -/
def stage (c : Cursor) (mode : Mode) : Stage := ⟨mode, c.rest⟩

/-- Reads a preposition with its noun phrase. -/
def prepositionalPhrase (c : Cursor) : Except SyntaxError Unit × Cursor :=
  c.attempt Concord.prepositionalPhrase

/-- The tokens up to `e` end with the next separator, or there is none and `e` is the end. -/
def ThroughSeparator (c : Cursor) (e : Nat) : Prop :=
  (∃ g t, c.upTo e = g ++ [t] ∧ t.isSeparator = true ∧ ∀ t ∈ g, t.isSeparator = false) ∨
    (e = c.tokens.length ∧ ∀ t ∈ c.rest, t.isSeparator = false)

/-- The cursor where recovering goes on. -/
def recover (c : Cursor) : Cursor :=
  ⟨c.tokens, afterSeparator c.rest, (afterSeparator_suffix c.rest).trans c.suffix⟩

theorem rest_ne_nil (h : c.index < c.tokens.length) : c.rest ≠ [] := by
  intro hnil
  rw [index, hnil, List.length_nil] at h
  omega

theorem index_lt_recover (h : c.index < c.tokens.length) : c.index < c.recover.index :=
  index_lt_of_length_lt rfl (length_afterSeparator_lt (rest_ne_nil h))

theorem throughSeparator_recover (c : Cursor) : c.ThroughSeparator c.recover.index := by
  rcases afterSeparator_cases c.rest with ⟨g, t, hrest, ht, hg⟩ | ⟨hnil, hrest⟩
  · have hindex := @index_eq_add c c.recover rfl (g ++ [t]) hrest
    have hle : c.index ≤ c.recover.index := by omega
    have hdrop : c.tokens.drop c.recover.index = afterSeparator c.rest :=
      c.recover.rest_eq_drop.symm
    have hpassed : c.upTo c.recover.index ++ afterSeparator c.rest =
        g ++ [t] ++ afterSeparator c.rest := by
      rw [← hrest, ← hdrop]
      exact (rest_eq_upTo hle).symm
    exact Or.inl ⟨g, t, List.append_cancel_right hpassed, ht, hg⟩
  · refine Or.inr ⟨?_, hrest⟩
    show c.tokens.length - (afterSeparator c.rest).length = _
    rw [hnil, List.length_nil, Nat.sub_zero]

/-- A production that consumes a token moves the cursor. -/
theorem lt_index_attempt
    (h : (production (endPosition c.tokens) c.rest).rest.length < c.rest.length) :
    c.index < (c.attempt production).2.index :=
  index_lt_of_length_lt rfl h

theorem lt_index_nounPhrase {n : Number} (h : c.nounPhrase.1 = .ok n) :
    c.index < c.nounPhrase.2.index := lt_index_attempt (nounPhrase_length_lt h)

theorem lt_index_prepositionalPhrase (h : c.prepositionalPhrase.1 = .ok ()) :
    c.index < c.prepositionalPhrase.2.index := lt_index_attempt (prepositionalPhrase_length_lt h)

theorem lt_index_sentence {n : Number} (h : c.sentence.1 = .ok n) :
    c.index < c.sentence.2.index := lt_index_attempt (sentence_length_lt h)

/-- Scanning succeeds and moves the cursor, or fails and does not move it back. -/
theorem advance_scanning_cases (c : Cursor) :
    ∃ c' : Cursor, c'.tokens = c.tokens ∧
      (((c.stage .scanning).advance (endPosition c.tokens) = (some (.ok ()), c'.stage .scanning) ∧
          c.index < c'.index) ∨
        ∃ e, (c.stage .scanning).advance (endPosition c.tokens) =
            (some (.error e), c'.stage .recovering) ∧ c.index ≤ c'.index) := by
  refine ⟨(c.attempt scanSentence).2, rfl, ?_⟩
  rcases (scanSentence (endPosition c.tokens) c.rest).reads_or_fails with
    ⟨_, rest, hreads⟩ | ⟨e, rest, hfails⟩
  · refine Or.inl ⟨?_, lt_index_attempt (scanSentence_length_lt hreads.1)⟩
    rw [stage, Stage.advance_of_reads hreads, ← hreads.2]
    rfl
  · refine Or.inr ⟨e, ?_, c.le_index_attempt scanSentence⟩
    rw [stage, Stage.advance_of_fails hfails, ← hfails.2]
    rfl

/-- So a turn may pass nothing: a comma that begins a sentence is refused where it stands. -/
example :
    let tokens : List Token := [⟨",", .comma, .any, 1⟩, ⟨"he", .pronoun, .singular, 2⟩]
    Stage.advance 3 ⟨.scanning, tokens⟩ =
      (some (.error (.leadingSeparator 1)), ⟨.recovering, tokens⟩) := rfl

/-- A prepositional phrase enters a noun phrase right after its preposition. -/
theorem prepositionalPhrase_enters_iff (htokens : c'.tokens = c.tokens) {finish : Nat} :
    Enters prepositionalPhraseWith finish c.rest c'.rest ↔
      c.StandsAt c.index .preposition ∧ c'.index = c.index + 1 := by
  rw [prepositionalPhraseWith_enters_iff]
  constructor
  · rintro ⟨p, hrest, hp⟩
    exact ⟨⟨p, @getElem?_index_add c [] c'.rest p hrest, hp⟩,
      @index_eq_add c c' htokens [p] hrest⟩
  · rintro ⟨⟨p, hget, hp⟩, hindex⟩
    obtain ⟨hlt, rfl⟩ := List.getElem?_eq_some_iff.1 hget
    refine ⟨_, ?_, hp⟩
    rw [c.rest_eq_drop, c'.rest_eq_drop, hindex, htokens]
    exact List.drop_eq_getElem_cons hlt

/-- A noun phrase enters others only from prepositional phrases that begin further on. -/
theorem nounPhrase_enters (htokens : c'.tokens = c.tokens) {finish : Nat}
    (h : Enters nounPhraseWith finish c.rest c'.rest) :
    ∃ i, c.index < i ∧ c.StandsAt i .preposition ∧ c'.index = i + 1 := by
  obtain ⟨before, p, hrest, hne, hp⟩ := exists_preposition_of_enters h
  have hpos := List.length_pos_iff.2 hne
  refine ⟨c.index + before.length, by omega, ⟨p, getElem?_index_add hrest, hp⟩, ?_⟩
  rw [List.append_cons] at hrest
  rw [@index_eq_add c c' htokens _ hrest, List.length_append, List.length_singleton]
  omega

end Cursor

/-! ## Progress -/

/-- What is passed while the program `tokens` is read, and how many turns it takes. The turns are
described at every place in the tokens, those that the loop gets to among them (`place`). -/
structure Progresses (tokens : List Token) : Prop where
  -- One turn.
  place : ∀ s, Reached tokens s → ∃ c : Cursor, c.tokens = tokens ∧ c.stage s.mode = s
  recovering : ∀ c : Cursor, c.tokens = tokens → c.index < tokens.length →
    ∃ c' : Cursor, c'.tokens = tokens ∧
      (c.stage .recovering).advance (endPosition tokens) = (none, c'.stage .scanning) ∧
      c.index < c'.index ∧ c.ThroughSeparator c'.index
  scanning : ∀ c : Cursor, c.tokens = tokens → c.index < tokens.length →
    ∃ c' : Cursor, c'.tokens = tokens ∧
      (((c.stage .scanning).advance (endPosition tokens) = (some (.ok ()), c'.stage .scanning) ∧
          c.index < c'.index) ∨
        ∃ e, (c.stage .scanning).advance (endPosition tokens) =
            (some (.error e), c'.stage .recovering) ∧ c.index ≤ c'.index)
  -- Productions that succeed.
  nounPhrase : ∀ (c : Cursor) n, c.tokens = tokens → c.nounPhrase.1 = .ok n →
    c.index < c.nounPhrase.2.index
  prepositionalPhrase : ∀ c : Cursor, c.tokens = tokens → c.prepositionalPhrase.1 = .ok () →
    c.index < c.prepositionalPhrase.2.index
  sentence : ∀ (c : Cursor) n, c.tokens = tokens → c.sentence.1 = .ok n →
    c.index < c.sentence.2.index
  -- The recursion: where it goes, and that it ends.
  fromPrepositionalPhrase : ∀ c c' : Cursor, c.tokens = tokens → c'.tokens = tokens →
    (Enters prepositionalPhraseWith (endPosition tokens) c.rest c'.rest ↔
      c.StandsAt c.index .preposition ∧ c'.index = c.index + 1)
  fromNounPhrase : ∀ c c' : Cursor, c.tokens = tokens → c'.tokens = tokens →
    Enters nounPhraseWith (endPosition tokens) c.rest c'.rest →
      ∃ i, c.index < i ∧ c.StandsAt i .preposition ∧ c'.index = i + 1
  recursion : ∀ (c : Cursor) depth, c.tokens = tokens → tokens.length - c.index < depth →
    nestedPhrase (endPosition tokens) depth c.rest =
        some (Concord.nounPhrase (endPosition tokens) c.rest) ∧
      modifiersWith (endPosition tokens) (nestedPhrase (endPosition tokens) depth) c.rest =
        some (modifiers (endPosition tokens) c.rest)
  -- All turns.
  segment : ∀ g before after, tokens.all Token.isSeparator = false →
    segments tokens = before ++ g :: after →
      ∃ earlier here s, Loop tokens earlier ⟨.scanning, g ++ after.flatten⟩ ∧
        Loop tokens (earlier ++ here) s ∧ s.rest = after.flatten ∧ here.length ≤ 2
  turns : ∀ turns s, Loop tokens turns s → turns.length ≤ 2 * (segments tokens).length
  ends : if tokens.all Token.isSeparator then parseProgram tokens = .empty
    else ∃ turns s, Loop tokens turns s ∧ s.rest = [] ∧
      parseProgram tokens = Stage.foundIn (endPosition tokens) turns

/-- Every program is read to its end, with at most two turns of the loop for each of its segments.
Turns move on or change the mode from scanning to recovering, productions that succeed consume
tokens, and the recursion goes only forward. -/
theorem parseProgram_progresses (tokens : List Token) : Progresses tokens where
  place := by
    intro s hreached
    obtain ⟨turns, hloop⟩ := hreached
    exact ⟨⟨tokens, s.rest, hloop.2.suffix⟩, rfl, rfl⟩
  recovering := by
    rintro c rfl hlt
    exact ⟨c.recover, rfl, rfl, c.index_lt_recover hlt, c.throughSeparator_recover⟩
  scanning := by
    rintro c rfl -
    exact c.advance_scanning_cases
  nounPhrase := fun _ _ _ => Cursor.lt_index_nounPhrase
  prepositionalPhrase := fun _ _ => Cursor.lt_index_prepositionalPhrase
  sentence := fun _ _ _ => Cursor.lt_index_sentence
  fromPrepositionalPhrase := by
    rintro c c' rfl htokens
    exact Cursor.prepositionalPhrase_enters_iff htokens
  fromNounPhrase := by
    rintro c c' rfl htokens henters
    exact Cursor.nounPhrase_enters htokens henters
  recursion := by
    rintro c depth rfl hdepth
    rw [← List.length_drop, ← c.rest_eq_drop] at hdepth
    exact ⟨nestedPhrase_eq hdepth,
      modifiersWith_eq (knowsAfter_nestedPhrase (Nat.le_of_lt hdepth))⟩
  segment := by
    intro g before after h hg
    obtain ⟨earlier, here, s, hearlier, hhere, hs, hlength, -⟩ := Loop.exists_segment h hg
    exact ⟨earlier, here, s, hearlier, hhere, hs, hlength⟩
  turns := fun _ _ => Loop.length_le
  ends := by
    cases h : tokens.all Token.isSeparator with
    | true => rw [if_pos rfl, parseProgram, if_pos h]
    | false =>
      obtain ⟨turns, s, hloop, hend, -⟩ := Loop.exists_end h
      rw [if_neg (by simp)]
      exact ⟨turns, s, hloop, hend, hloop.parseProgram_eq hend⟩

end Concord
