import Concord.Proofs.Grammar.ErrorOrder
import Concord.Proofs.Grammar.Relocation

/-!
# The verdict about joined texts

Texts of one segment each, joined by commas, are a text of these segments. So the verdict about it
is put together from the verdicts about the texts: it is accepted where all of them are, and
otherwise it has the errors of those that are not, in order. The errors are moved on to their places
in the joined text, and the end of every text but the last has become a comma (`relocated`).

Main statements: `analyze_of_tokens`, the verdict about a text is that of its segments;
`analyze_joined`, the verdict about joined texts is composed of theirs.
-/

namespace Concord

open Grammar

/-! ## The verdict about segments -/

/-- The verdict where some segments have these errors, and the others are accepted. -/
def verdictOf (errors : List SyntaxError) : Verdict :=
  if errors = [] then .accepted else .rejected errors

theorem ok_verdictOf_iff {errors : List SyntaxError} :
    (verdictOf errors).ok = true ↔ errors = [] := by
  unfold verdictOf
  split
  case isTrue h => simp [Verdict.ok, h]
  case isFalse h => simp [Verdict.ok, h]

/-- A text that is not made of commas only has the verdict about its segments. -/
theorem analyze_of_tokens {lexicon : Lexicon} {text : String} {ts : List Token}
    (h : tokenize lexicon text = .ok ts) (hts : ts.all Token.isSeparator = false) :
    analyze lexicon text = verdictOf ((segments ts).filterMap segmentError?) := by
  have hne : ts ≠ [] := by
    rintro rfl
    simp at hts
  have htotal := segmentReport_total (segments ts)
  have hpos : 0 < (segments ts).length := List.length_pos_iff.2 (segments_ne_nil hne)
  have herrors : (segmentReport (segments ts)).errors = (segments ts).filterMap segmentError? := by
    rw [segmentReport_eq]
  rw [analyze, h]
  simp only
  rw [parseProgram_eq hts, Report.verdict, verdictOf, ← herrors]
  by_cases hnil : (segmentReport (segments ts)).errors = []
  · rw [hnil, List.length_nil] at htotal
    rw [if_neg (by simp [hnil]), if_neg (by omega), if_pos hnil]
  · rw [if_pos hnil, if_neg hnil]

/-- The error of a text that is rejected for a single one. -/
def singleError? (lexicon : Lexicon) (text : String) : Option SyntaxError :=
  match analyze lexicon text with
  | .rejected [e] => some e
  | _ => none

/-- A text of one segment: it has tokens, and no comma among them. -/
def OneSegment (lexicon : Lexicon) (text : String) : Prop :=
  ∃ ts, tokenize lexicon text = .ok ts ∧ ts ≠ [] ∧ ∀ t ∈ ts, t.category ≠ .comma

theorem OneSegment.exists_segment {lexicon : Lexicon} {text : String}
    (h : OneSegment lexicon text) :
    ∃ g, tokenize lexicon text = .ok g ∧ g ≠ [] ∧ ∀ t ∈ g, t.isSeparator = false := by
  obtain ⟨g, htokens, hne, hcomma⟩ := h
  exact ⟨g, htokens, hne, fun t ht => Token.isSeparator_of_category rfl (hcomma t ht)⟩

/-- A text of one segment is accepted or rejected with the error of the segment. -/
theorem analyze_of_segment {lexicon : Lexicon} {text : String} {g : List Token}
    (h : tokenize lexicon text = .ok g) (hne : g ≠ []) (hg : ∀ t ∈ g, t.isSeparator = false) :
    analyze lexicon text = verdictOf (segmentError? g).toList ∧
      singleError? lexicon text = segmentError? g := by
  obtain ⟨t, ts, rfl⟩ := List.exists_cons_of_ne_nil hne
  have hall : (t :: ts).all Token.isSeparator = false := by simp [hg t List.mem_cons_self]
  have hanalyze := analyze_of_tokens h hall
  rw [segments_of_not_separator hg hne, List.filterMap_eq_flatMap_toList,
    List.flatMap_singleton] at hanalyze
  refine ⟨hanalyze, ?_⟩
  rw [singleError?, hanalyze]
  cases segmentError? (t :: ts) <;> rfl

theorem segmentError?_of_mapError {g g' : List Token} {f : SyntaxError → SyntaxError}
    (h : segmentOutcome g' = (segmentOutcome g).mapError f) :
    segmentError? g' = (segmentError? g).map f := by
  unfold segmentError?
  rw [h]
  cases segmentOutcome g <;> rfl

theorem filterMap_cons_eq {α β γ : Type} {f : α → Option γ} {g : β → Option γ} {a : α} {b : β}
    {as : List α} {bs : List β} (h : f a = g b) (hs : as.filterMap f = bs.filterMap g) :
    (a :: as).filterMap f = (b :: bs).filterMap g := by
  rw [List.filterMap_cons, List.filterMap_cons, h, hs]

/-! ## Joining -/

/-- An error of the text with index `i`, in the place of this text among the others. -/
def relocated (texts : List String) (i : Nat) (e : SyntaxError) : SyntaxError :=
  let moved := e.shift (unitsThrough (texts.take i))
  if i + 1 < texts.length then moved.beforeComma (unitsThrough (texts.take (i + 1))) else moved

/-- What a text with its index adds to the errors of joined texts. -/
def errorAt (lexicon : Lexicon) (texts : List String) (x : String × Nat) : Option SyntaxError :=
  (singleError? lexicon x.1).map (relocated texts x.2)

/-- The errors of texts that are joined: one for each text that is not accepted. -/
def joinedErrors (lexicon : Lexicon) (texts : List String) : List SyntaxError :=
  texts.zipIdx.filterMap (errorAt lexicon texts)

variable {lexicon : Lexicon}

/-- The end of the last text is the end of all. -/
theorem errorAt_last (before : List String) (text : String) :
    errorAt lexicon (before ++ [text]) (text, before.length) =
      (singleError? lexicon text).map (SyntaxError.shift (unitsThrough before)) := by
  have hrelocated : relocated (before ++ [text]) before.length =
      SyntaxError.shift (unitsThrough before) := by
    funext e
    simp [relocated]
  rw [errorAt, hrelocated]

/-- The end of any other text is a comma. -/
theorem errorAt_inner (before : List String) (text : String) {after : List String}
    (hafter : after ≠ []) :
    errorAt lexicon (before ++ text :: after) (text, before.length) =
      ((singleError? lexicon text).map (SyntaxError.shift (unitsThrough before))).map
        (SyntaxError.beforeComma (unitsThrough (before ++ [text]))) := by
  have hlt : before.length + 1 < (before ++ text :: after).length := by
    have hpos := List.length_pos_iff.2 hafter
    rw [List.length_append, List.length_cons]
    omega
  have htake : (before ++ text :: after).take (before.length + 1) = before ++ [text] := by
    rw [List.take_length_add_append]
    rfl
  have hrelocated : relocated (before ++ text :: after) before.length =
      SyntaxError.beforeComma (unitsThrough (before ++ [text])) ∘
        SyntaxError.shift (unitsThrough before) := by
    funext e
    rw [relocated, if_pos hlt, htake, List.take_left, Function.comp]
  rw [errorAt, hrelocated, Option.map_map]

/-- The segments of the texts after some others, joined, have the errors of the texts in their
places. -/
theorem segmentErrors_joined {texts : List String} (before : List String) (hne : texts ≠ [])
    (h : ∀ text ∈ texts, OneSegment lexicon text) :
    ∃ ts, tokensFrom lexicon (unitsThrough before) (joined texts) = .ok ts ∧
      ts.all Token.isSeparator = false ∧
      (segments ts).filterMap segmentError? =
        (texts.zipIdx before.length).filterMap (errorAt lexicon (before ++ texts)) := by
  induction texts generalizing before with
  | nil => exact absurd rfl hne
  | cons text texts ih =>
    obtain ⟨hone, hrest⟩ := List.forall_mem_cons.1 h
    obtain ⟨g, htokens, hgne, hg⟩ := hone.exists_segment
    have herror : singleError? lexicon text = segmentError? g :=
      (analyze_of_segment htokens hgne hg).2
    obtain ⟨g', hmoved⟩ : ∃ g', g' = g.map (Token.shift (unitsThrough before)) := ⟨_, rfl⟩
    have hne' : g' ≠ [] := by simpa [hmoved] using hgne
    have hg' : ∀ t ∈ g', t.isSeparator = false := hmoved ▸ List.forall_mem_map.2 hg
    have hall (us : List Token) : (g' ++ us).all Token.isSeparator = false := by
      obtain ⟨t, ts, rfl⟩ := List.exists_cons_of_ne_nil hne'
      simp [hg' t List.mem_cons_self]
    have herror' : segmentError? g' =
        (singleError? lexicon text).map (SyntaxError.shift (unitsThrough before)) := by
      rw [hmoved, herror, segmentError?_of_mapError (segmentOutcome_shift hgne _)]
    by_cases htexts : texts = []
    · subst htexts
      refine ⟨g', ?_, by simpa using hall [], ?_⟩
      · rw [joined, String.intercalate_singleton, tokensFrom_eq, htokens, moved, hmoved]
      · rw [segments_of_not_separator hg' hne', List.zipIdx_singleton]
        exact filterMap_cons_eq (herror'.trans (errorAt_last before text).symm) rfl
    · obtain ⟨us, hus, -, herrors⟩ := ih (before ++ [text]) htexts hrest
      rw [unitsThrough_concat] at hus
      rw [List.append_assoc, List.singleton_append, List.length_append] at herrors
      refine ⟨g' ++ commaAt (unitsThrough (before ++ [text])) :: us, ?_, hall _, ?_⟩
      · rw [joined_cons htexts, tokensFrom_comma_of_ok htokens, hus, hmoved, unitsThrough_concat]
        rfl
      · have hcomma := segmentError?_of_mapError
          (segmentOutcome_comma hne' hg' (unitsThrough (before ++ [text])))
        rw [herror', ← errorAt_inner before text htexts] at hcomma
        rw [segments_append hg' rfl, List.zipIdx_cons]
        exact filterMap_cons_eq hcomma herrors

/-- The error of a text of one segment is at one of its units, or at the end after them. -/
theorem position_le_of_singleError? {text : String} {e : SyntaxError}
    (h : OneSegment lexicon text) (he : singleError? lexicon text = some e) :
    e.position ≤ unitCount text + 1 := by
  obtain ⟨g, htokens, hne, hg⟩ := h.exists_segment
  rw [(analyze_of_segment htokens hne hg).2] at he
  rcases segmentError_position he with ⟨-, t, ht, hposition⟩ | ⟨-, -, hposition⟩
  · rw [hposition]
    exact Nat.le_succ_of_le (position_le_of_tokenize htokens ht)
  · have hlast := position_le_of_tokenize htokens (List.getLast_mem hne)
    rw [hposition, endPosition_of_getLast? (List.getLast?_eq_some_getLast hne)]
    exact Nat.le_trans (Nat.mod_le _ _) (Nat.succ_le_succ hlast)

/-- Texts of one segment each, joined, have the verdict about their errors. -/
theorem analyze_joined_eq {texts : List String} (hne : texts ≠ [])
    (h : ∀ text ∈ texts, OneSegment lexicon text) :
    analyze lexicon (joined texts) = verdictOf (joinedErrors lexicon texts) := by
  obtain ⟨ts, htokens, hall, herrors⟩ := segmentErrors_joined [] hne h
  have htokenize : tokenize lexicon (joined texts) = .ok ts := htokens
  rw [analyze_of_tokens htokenize hall, herrors]
  rfl

theorem joinedErrors_eq_nil_iff {texts : List String} :
    joinedErrors lexicon texts = [] ↔ ∀ text ∈ texts, singleError? lexicon text = none := by
  have herrorAt (x : String × Nat) :
      errorAt lexicon texts x = none ↔ singleError? lexicon x.1 = none := Option.map_eq_none_iff
  have htexts : (texts.zipIdx.map Prod.fst) = texts := List.zipIdx_map_fst 0 texts
  rw [joinedErrors, List.filterMap_eq_nil_iff]
  conv_rhs => rw [← htexts, List.forall_mem_map]
  exact forall₂_congr fun x _ => herrorAt x

/-- Joined texts that have no tokens because of an unknown word have the first such error. -/
theorem analyze_joined_of_error {before after : List String} {text : String} {e : LexicalError}
    (hbefore : ∀ t ∈ before, ∃ ts, tokenize lexicon t = .ok ts)
    (h : tokenize lexicon text = .error e) :
    analyze lexicon (joined (before ++ text :: after)) =
      .unreadable (e.shift (unitsThrough before)) := by
  have htokens := @tokensFrom_joined_of_error lexicon e 0 before after text hbefore h
  rw [Nat.zero_add] at htokens
  have htokenize : tokenize lexicon (joined (before ++ text :: after)) =
      .error (e.shift (unitsThrough before)) := htokens
  rw [analyze, htokenize]

/-- The analysis of joined texts is composed of theirs. Texts of one segment each are accepted
together where each is accepted alone, and otherwise rejected with the errors of those that are
rejected, each in its place: every position moves on by the units and commas before the text, as
long as there are positions for all units. If some text cannot be cut into tokens, neither can the
joined texts, for the same reason as the first such text in its place. -/
theorem analyze_joined (lexicon : Lexicon) (texts : List String) :
    (texts ≠ [] → (∀ text ∈ texts, OneSegment lexicon text) →
      (∀ text ∈ texts, analyze lexicon text = .accepted ∨
        ∃ e, analyze lexicon text = .rejected [e] ∧ singleError? lexicon text = some e) ∧
      ((analyze lexicon (joined texts)).ok = true ↔
        ∀ text ∈ texts, (analyze lexicon text).ok = true) ∧
      ((analyze lexicon (joined texts)).ok = false →
        analyze lexicon (joined texts) = .rejected (joinedErrors lexicon texts)) ∧
      (unitsThrough texts < positionLimit →
        ∀ before text after e, texts = before ++ text :: after →
          singleError? lexicon text = some e →
          (e.shift (unitsThrough before)).position = e.position + unitsThrough before)) ∧
    ∀ before text after e, texts = before ++ text :: after →
      (∀ t ∈ before, ∃ ts, tokenize lexicon t = .ok ts) → tokenize lexicon text = .error e →
      analyze lexicon (joined texts) = .unreadable (e.shift (unitsThrough before)) := by
  refine ⟨fun hne h => ?_, fun before text after e htexts hbefore herror => ?_⟩
  · have halone : ∀ text ∈ texts,
        analyze lexicon text = verdictOf (singleError? lexicon text).toList := by
      intro text htext
      obtain ⟨g, htokens, hgne, hg⟩ := (h text htext).exists_segment
      obtain ⟨hanalyze, hsingle⟩ := analyze_of_segment htokens hgne hg
      rw [hanalyze, hsingle]
    have hok : ∀ text ∈ texts,
        (analyze lexicon text).ok = true ↔ singleError? lexicon text = none := by
      intro text htext
      rw [halone text htext, ok_verdictOf_iff, Option.toList_eq_nil_iff]
    rw [analyze_joined_eq hne h]
    refine ⟨fun text htext => ?_, ?_, fun hfailed => ?_, ?_⟩
    · rw [halone text htext]
      cases hsingle : singleError? lexicon text with
      | none => exact Or.inl rfl
      | some e => exact Or.inr ⟨e, rfl, rfl⟩
    · rw [ok_verdictOf_iff, joinedErrors_eq_nil_iff]
      exact forall₂_congr fun text htext => (hok text htext).symm
    · have hne' : joinedErrors lexicon texts ≠ [] := fun hnil => by
        simp [ok_verdictOf_iff.2 hnil] at hfailed
      exact if_neg hne'
    · intro hlimit before text after e htexts he
      have hle := position_le_of_singleError? (h text (by simp [htexts])) he
      rw [htexts, unitsThrough_append, unitsThrough] at hlimit
      exact SyntaxError.position_shift (by omega)
  · subst htexts
    exact analyze_joined_of_error hbefore herror

/-- A lexicon of three words. -/
def petLexicon : Lexicon
  | "the" => some ⟨.determiner, .any⟩
  | "dogs" => some ⟨.noun, .plural⟩
  | "run" => some ⟨.verb, .plural⟩
  | _ => none

/-- The first text misses its noun at the comma after it. Its unit of stops is counted. -/
theorem petTexts_analyze_joined :
    analyze petLexicon (joined ["the ...", "dogs run."]) =
        .rejected [.unexpectedToken .noun .comma "," 3] ∧
      analyze petLexicon (joined ["the ...", "cats"]) = .unreadable (.unknownWord "cats" 4) := by
  have hthe : tokenize petLexicon "the ..." = .ok [⟨"the", .determiner, .any, 1⟩] := by
    decide +kernel
  have hdogs : tokenize petLexicon "dogs run." =
      .ok [⟨"dogs", .noun, .plural, 1⟩, ⟨"run", .verb, .plural, 2⟩] := by decide +kernel
  have hcats : tokenize petLexicon "cats" = .error (.unknownWord "cats" 1) := by decide +kernel
  have hcount : unitCount "the ..." = 2 := by
    rw [← length_units]
    decide +kernel
  obtain ⟨hverdict, hsingle⟩ := analyze_of_segment hthe (by simp) (by decide)
  have hmissing : singleError? petLexicon "the ..." = some (.unexpectedEnd .noun 2) := by
    rw [hsingle, segmentError?_eq_some]
    exact (scanSentence_fails_iff.2 ⟨_, [], (List.append_nil _).symm, .sentence rfl
      (.subject (.noNoun rfl (by simp) (by simp) .atEnd)), rfl⟩).1
  have hsentence : singleError? petLexicon "dogs run." = none := by
    rw [(analyze_of_segment hdogs (by simp) (by decide)).2, segmentError?_eq_none,
      segmentOutcome_ok_iff (by decide)]
    have hcore : Core (.noun .plural) [⟨"dogs", .noun, .plural, 1⟩] :=
      @Core.bare ⟨"dogs", .noun, .plural, 1⟩ rfl (Or.inl rfl)
    have hopening : Opening .plural [⟨"dogs", .noun, .plural, 1⟩, ⟨"run", .verb, .plural, 2⟩] :=
      .intro (.noun hcore .nil) (List.forall_mem_nil _) rfl rfl
    exact ⟨.plural, .intro hopening (.plain .nil)⟩
  have herrors : joinedErrors petLexicon ["the ...", "dogs run."] =
      [.unexpectedToken .noun .comma "," 3] := by
    simp [joinedErrors, errorAt, relocated, hmissing, hsentence, hcount, unitsThrough,
      SyntaxError.shift, SyntaxError.beforeComma]
  have hsegments : ∀ text ∈ ["the ...", "dogs run."], OneSegment petLexicon text := by
    refine List.forall_mem_cons.2 ⟨⟨_, hthe, by simp, by decide⟩, ?_⟩
    exact List.forall_mem_singleton.2 ⟨_, hdogs, by simp, by decide⟩
  obtain ⟨-, hok, hrejected, -⟩ :=
    (analyze_joined petLexicon ["the ...", "dogs run."]).1 (by simp) hsegments
  refine ⟨?_, ?_⟩
  · rw [← herrors]
    refine hrejected (Bool.eq_false_iff.2 fun hall => ?_)
    have hfirst := hok.1 hall "the ..." List.mem_cons_self
    rw [hverdict, ok_verdictOf_iff, ← hsingle, hmissing] at hfirst
    simp at hfirst
  · have hunreadable := (analyze_joined petLexicon ["the ...", "cats"]).2 ["the ..."] "cats" [] _
      rfl (List.forall_mem_singleton.2 ⟨_, hthe⟩) hcats
    rwa [unitsThrough, hcount] at hunreadable

end Concord
