import Mathlib.Data.List.Permutation
import Concord.Proofs.Grammar.Alike

/-!
# Two programs side by side

Two lists of tokens that have the same categories and numbers, index by index, are read in lockstep:
both readings are in the same mode and at the same index all the time, whether a sentence is read,
breaks off, or is dropped up to its separator. So they find the same, and every word and position of
an error of the one is from the index from which the other has it.

Main statements: `Stage.advance_alike`, one step keeps the readings side by side; `Stage.run_alike`,
so their reports correspond; `parseProgram_lockstep`, for lists with the same entries.
-/

namespace Concord

open List

/-- The category and the number of a token, which is all that the grammar asks for. -/
def Token.entry (t : Token) : Entry := ⟨t.category, t.number⟩

/-- An error without its words and its position. -/
def SyntaxError.shape : SyntaxError → SyntaxError
  | unexpectedToken expected found _ _ => unexpectedToken expected found "" 0
  | unexpectedEnd expected _ => unexpectedEnd expected 0
  | missingNounPhrase _ => missingNounPhrase 0
  | invalidNounPhraseStart found _ _ => invalidNounPhraseStart found "" 0
  | determinerAgreement _ determinerNumber _ nounNumber _ =>
    determinerAgreement "" determinerNumber "" nounNumber 0
  | bareSingularNoun _ _ => bareSingularNoun "" 0
  | subjectVerbAgreement subject _ verbNumber _ => subjectVerbAgreement subject "" verbNumber 0
  | leadingSeparator _ => leadingSeparator 0
  | expectedSeparator _ _ => expectedSeparator "" 0

variable {R : Token → Token → Prop} {finish finish' : Nat} {ts us : List Token}

/-- Corresponding errors differ in words and positions only. -/
theorem ErrorAlike.shape_eq (hR : Alike R) {e e' : SyntaxError}
    (h : ErrorAlike R finish finish' e e') : e'.shape = e.shape := by
  cases h with
  | unexpectedToken ht => simp only [SyntaxError.shape, hR.category ht]
  | invalidNounPhraseStart ht => simp only [SyntaxError.shape, hR.category ht]
  | determinerAgreement hd hn => simp only [SyntaxError.shape, hR.number hd, hR.number hn]
  | subjectVerbAgreement ht => simp only [SyntaxError.shape, hR.number ht]
  | _ => rfl

/-! ## Corresponding reports -/

/-- As many sentences, and errors that correspond one by one. -/
structure ReportAlike (R : Token → Token → Prop) (finish finish' : Nat) (r r' : Report) : Prop where
  sentences : r'.sentences = r.sentences
  errors : Forall₂ (ErrorAlike R finish finish') r.errors r'.errors

namespace ReportAlike

variable {r r' : Report}

theorem empty : ReportAlike R finish finish' .empty .empty := ⟨rfl, .nil⟩

/-- Corresponding findings make corresponding reports. -/
theorem record {found found' : Option (Except SyntaxError Unit)}
    (hfound : Option.Rel (OutcomeAlike R finish finish') found found')
    (h : ReportAlike R finish finish' r r') :
    ReportAlike R finish finish' (r.record found) (r'.record found') := by
  cases hfound with
  | none => exact h
  | some houtcome =>
    cases houtcome with
    | ok => exact ⟨congrArg (· + 1) h.sentences, h.errors⟩
    | error he => exact ⟨h.sentences, .cons he h.errors⟩

theorem shapes (hR : Alike R) (h : ReportAlike R finish finish' r r') :
    r'.errors.map SyntaxError.shape = r.errors.map SyntaxError.shape := by
  symm
  rw [← forall₂_eq_eq_eq, forall₂_map_left_iff, forall₂_map_right_iff]
  exact h.errors.imp fun _ _ he => (he.shape_eq hR).symm

end ReportAlike

/-! ## Lockstep -/

theorem afterSeparator_alike (hR : Alike R) (h : Forall₂ R ts us) :
    Forall₂ R (afterSeparator ts) (afterSeparator us) := by
  induction h with
  | nil => exact .nil
  | cons ht hrest ih =>
    rw [afterSeparator, afterSeparator, hR.isSeparator ht]
    split
    · exact hrest
    · exact ih

theorem all_isSeparator_alike (hR : Alike R) (h : Forall₂ R ts us) :
    us.all Token.isSeparator = ts.all Token.isSeparator := by
  induction h with
  | nil => rfl
  | cons ht _ ih => rw [all_cons, all_cons, hR.isSeparator ht, ih]

namespace Stage

/-- Two readings in the same mode, before corresponding tokens. -/
structure Together (R : Token → Token → Prop) (s s' : Stage) : Prop where
  mode : s'.mode = s.mode
  rest : Forall₂ R s.rest s'.rest

variable {s s' : Stage}

theorem modeAfter_alike {outcome outcome' : Except SyntaxError Unit}
    (h : OutcomeAlike R finish finish' outcome outcome') :
    modeAfter outcome' = modeAfter outcome := by
  cases h <;> rfl

/-- One step keeps two readings side by side and finds corresponding things. -/
theorem advance_alike (hR : Alike R) (finish finish' : Nat) (h : Together R s s') :
    Option.Rel (OutcomeAlike R finish finish') (s.advance finish).1 (s'.advance finish').1 ∧
      Together R (s.advance finish).2 (s'.advance finish').2 := by
  obtain ⟨mode, ts⟩ := s
  obtain ⟨mode', us⟩ := s'
  obtain ⟨hmode, hrest⟩ := h
  obtain rfl : mode' = mode := hmode
  cases mode' with
  | recovering => exact ⟨.none, rfl, afterSeparator_alike hR hrest⟩
  | scanning =>
    obtain ⟨houtcome, hleft⟩ := scanSentence_alike hR finish finish' hrest
    rw [advance_scanning, advance_scanning]
    exact ⟨.some houtcome, modeAfter_alike houtcome, hleft⟩

/-- Readings that are side by side give corresponding reports. -/
theorem run_alike (hR : Alike R) (finish finish' : Nat) (h : Together R s s') :
    ReportAlike R finish finish' (s.run finish) (s'.run finish') := by
  induction s using run.induct finish generalizing s' with
  | case1 s hnil =>
    have hnil' : s'.rest = [] := forall₂_nil_left_iff.1 (hnil ▸ h.rest)
    rw [run, dif_pos hnil, run, dif_pos hnil']
    exact .empty
  | case2 s hne ih =>
    have hne' : s'.rest ≠ [] := fun hnil' => hne (forall₂_nil_right_iff.1 (hnil' ▸ h.rest))
    obtain ⟨hfound, hnext⟩ := advance_alike hR finish finish' h
    rw [run_of_ne_nil hne, run_of_ne_nil hne']
    exact (ih hnext).record hfound

end Stage

/-- Programs of corresponding tokens have corresponding reports. -/
theorem parseProgram_alike (hR : Alike R) (h : Forall₂ R ts us) :
    ReportAlike R (endPosition ts) (endPosition us) (parseProgram ts) (parseProgram us) := by
  rw [parseProgram, parseProgram, all_isSeparator_alike hR h]
  split
  · exact .empty
  · exact Stage.run_alike hR _ _ ⟨rfl, h⟩

/-! ## The same entries -/

/-- Two tokens with the same entry that stand at one index of two lists. -/
structure Twins (ts us : List Token) (t u : Token) : Prop where
  index : ∃ i : Nat, ts[i]? = some t ∧ us[i]? = some u
  entry : u.entry = t.entry

theorem alike_twins (ts us : List Token) : Alike (Twins ts us) where
  category h := congrArg Entry.category h.entry
  number h := congrArg Entry.number h.entry

/-- In lists with the same entries every token has a twin. -/
theorem forall₂_twins (h : ts.map Token.entry = us.map Token.entry) :
    Forall₂ (Twins ts us) ts us := by
  have hlength : ts.length = us.length := by simpa using congrArg List.length h
  refine forall₂_of_length_eq_of_get hlength fun i hi hi' => ⟨⟨i, ?_, ?_⟩, ?_⟩
  · exact getElem?_eq_getElem hi
  · exact getElem?_eq_getElem hi'
  · have hentry := congrArg (·[i]?) h
    simpa [hi, hi'] using hentry.symm

/-- What is found in a program depends on the categories and numbers of its tokens alone. The words
and positions of the errors come from the same indices in both lists, or from their ends: the end of
a list comes right after its last token, if a position does. -/
theorem parseProgram_lockstep {ts us : List Token} (h : ts.map Token.entry = us.map Token.entry) :
    (parseProgram us).sentences = (parseProgram ts).sentences ∧
    (parseProgram us).errors.map SyntaxError.shape =
      (parseProgram ts).errors.map SyntaxError.shape ∧
    Forall₂ (ErrorAlike (Twins ts us) (endPosition ts) (endPosition us))
      (parseProgram ts).errors (parseProgram us).errors ∧
    PastLast ts (endPosition ts) ∧ PastLast us (endPosition us) := by
  have halike := parseProgram_alike (alike_twins ts us) (forall₂_twins h)
  exact ⟨halike.sentences, halike.shapes (alike_twins ts us), halike.errors,
    pastLast_endPosition ts, pastLast_endPosition us⟩

/-- No position comes after the greatest. Two programs of one word then differ in more than the
positions of their tokens: the end of the second is at 0. -/
theorem theFirst_theGreatest_ends_apart :
    [theAt 1].map Token.entry = [theAt (positionLimit - 1)].map Token.entry ∧
    (parseProgram [theAt 1]).errors = [.unexpectedEnd .noun ((theAt 1).position + 1)] ∧
    (parseProgram [theAt (positionLimit - 1)]).errors = [.unexpectedEnd .noun 0] ∧
    0 ≠ (theAt (positionLimit - 1)).position + 1 := by
  have hfirst : (parseProgram [theAt 1]).errors =
      [.unexpectedEnd .noun ((theAt 1).position + 1)] := by
    cbv
  have hgreatest : (parseProgram [theAt (positionLimit - 1)]).errors =
      [.unexpectedEnd .noun 0] := by
    cbv
  exact ⟨rfl, hfirst, hgreatest, Nat.zero_ne_add_one _⟩

/-- The words "these dog runs, he". -/
def theseDogRunsHe : List Token :=
  [⟨"these", .determiner, .plural, 1⟩, ⟨"dog", .noun, .singularCountable, 2⟩,
    ⟨"runs", .verb, .singular, 3⟩, ⟨",", .comma, .any, 4⟩, ⟨"he", .pronoun, .singular, 5⟩]

/-- The words "those cat sleeps, she", with gaps between them. -/
def thoseCatSleepsShe : List Token :=
  [⟨"those", .determiner, .plural, 2⟩, ⟨"cat", .noun, .singularCountable, 3⟩,
    ⟨"sleeps", .verb, .singular, 7⟩, ⟨",", .comma, .any, 8⟩, ⟨"she", .pronoun, .singular, 11⟩]

/-- In both programs the first determiner does not agree and the second sentence lacks its verb. -/
theorem theseDog_thoseCat_lockstep :
    theseDogRunsHe.map Token.entry = thoseCatSleepsShe.map Token.entry ∧
    (parseProgram theseDogRunsHe).errors =
      [.determinerAgreement "these" .plural "dog" .singularCountable 2, .unexpectedEnd .verb 6] ∧
    (parseProgram thoseCatSleepsShe).sentences = 0 ∧
    (parseProgram thoseCatSleepsShe).errors.map SyntaxError.shape =
      [.determinerAgreement "" .plural "" .singularCountable 0, .unexpectedEnd .verb 0] ∧
    Forall₂ (ErrorAlike (Twins theseDogRunsHe thoseCatSleepsShe) 6 12)
      [.determinerAgreement "these" .plural "dog" .singularCountable 2, .unexpectedEnd .verb 6]
      (parseProgram thoseCatSleepsShe).errors := by
  have hentries : theseDogRunsHe.map Token.entry = thoseCatSleepsShe.map Token.entry := rfl
  have hreport : parseProgram theseDogRunsHe =
      ⟨0, [.determinerAgreement "these" .plural "dog" .singularCountable 2,
        .unexpectedEnd .verb 6]⟩ := by
    cbv
  obtain ⟨hsentences, hshapes, herrors, -⟩ := parseProgram_lockstep hentries
  rw [hreport] at hsentences hshapes herrors
  exact ⟨hentries, congrArg Report.errors hreport, hsentences, hshapes, herrors⟩

end Concord
