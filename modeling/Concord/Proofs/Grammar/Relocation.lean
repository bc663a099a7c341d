import Concord.Proofs.Grammar.Alike
import Concord.Proofs.Token.Joining

/-!
# Segments in another place

What becomes of a segment when it stands elsewhere: further on in the input, or before a comma and
not at the end. Further on, its error has a later position and is otherwise the same. Before a
comma, an error that reports the end of the input reports the comma instead, and no other error is
changed.

Main statements: `segmentOutcome_shift`, a segment further on; `segmentOutcome_comma`, a segment
before a comma.
-/

namespace Concord

open Grammar

/-- An error moved on by `k` units. If it reports the end of the input, its position is counted as
that of the end is. -/
def SyntaxError.shift (k : Nat) : SyntaxError → SyntaxError
  | unexpectedToken expected found word p => unexpectedToken expected found word (p + k)
  | unexpectedEnd expected p => unexpectedEnd expected ((p + k) % positionLimit)
  | missingNounPhrase p => missingNounPhrase ((p + k) % positionLimit)
  | invalidNounPhraseStart found word p => invalidNounPhraseStart found word (p + k)
  | determinerAgreement determiner determinerNumber noun nounNumber p =>
    determinerAgreement determiner determinerNumber noun nounNumber (p + k)
  | bareSingularNoun noun p => bareSingularNoun noun (p + k)
  | subjectVerbAgreement subject verb verbNumber p =>
    subjectVerbAgreement subject verb verbNumber (p + k)
  | leadingSeparator p => leadingSeparator (p + k)
  | expectedSeparator word p => expectedSeparator word (p + k)

/-- As long as there are positions, every error moves on by `k`. -/
theorem SyntaxError.position_shift {e : SyntaxError} {k : Nat}
    (h : e.position + k < positionLimit) : (e.shift k).position = e.position + k := by
  cases e with
  | unexpectedEnd _ _ => exact Nat.mod_eq_of_lt h
  | missingNounPhrase _ => exact Nat.mod_eq_of_lt h
  | _ => rfl

/-- An error of a segment that ends with a comma at position `p`, instead of the input. -/
def SyntaxError.beforeComma (p : Nat) : SyntaxError → SyntaxError
  | unexpectedEnd expected _ => unexpectedToken expected .comma "," p
  | missingNounPhrase _ => invalidNounPhraseStart .comma "," p
  | e => e

theorem SyntaxError.beforeComma_eq_self {e : SyntaxError} (h : e.atEnd = false) (p : Nat) :
    e.beforeComma p = e := by
  cases e with
  | unexpectedEnd _ _ => simp [atEnd] at h
  | missingNounPhrase _ => simp [atEnd] at h
  | _ => rfl

/-! ## Further on -/

theorem alike_shift (k : Nat) : Alike fun t u => u = t.shift k where
  category h := by rw [h, Token.category_shift]
  number h := by rw [h, Token.number_shift]

theorem ErrorAlike.eq_shift {k finish : Nat} {e e' : SyntaxError}
    (h : ErrorAlike (fun t u => u = t.shift k) finish ((finish + k) % positionLimit) e e') :
    e' = e.shift k := by
  cases h with
  | determinerAgreement hd hn => rw [hd, hn]; rfl
  | unexpectedEnd => rfl
  | missingNounPhrase => rfl
  | unexpectedToken h => rw [h]; rfl
  | invalidNounPhraseStart h => rw [h]; rfl
  | bareSingularNoun h => rw [h]; rfl
  | subjectVerbAgreement h => rw [h]; rfl
  | leadingSeparator h => rw [h]; rfl
  | expectedSeparator h => rw [h]; rfl

theorem endPosition_shift {g : List Token} (hne : g ≠ []) (k : Nat) :
    endPosition (g.map (Token.shift k)) = (endPosition g + k) % positionLimit := by
  have hlast := List.getLast?_eq_some_getLast hne
  have hshifted : (g.map (Token.shift k)).getLast? = some ((g.getLast hne).shift k) := by
    rw [List.getLast?_map, hlast, Option.map_some]
  rw [endPosition_of_getLast? hlast, endPosition_of_getLast? hshifted, Nat.mod_add_mod,
    Nat.add_right_comm]
  rfl

/-- A segment further on has the same outcome there. -/
theorem segmentOutcome_shift {g : List Token} (hne : g ≠ []) (k : Nat) :
    segmentOutcome (g.map (Token.shift k)) =
      (segmentOutcome g).mapError (SyntaxError.shift k) := by
  have hrel : List.Forall₂ (fun t u => u = t.shift k) g (g.map (Token.shift k)) :=
    List.forall₂_map_right_iff.2 (List.forall₂_same.2 fun _ _ => rfl)
  have houtcome := segmentOutcome_alike (alike_shift k) hrel
  rw [endPosition_shift hne] at houtcome
  generalize segmentOutcome g = outcome at houtcome ⊢
  generalize segmentOutcome (g.map (Token.shift k)) = outcome' at houtcome ⊢
  cases houtcome with
  | ok => rfl
  | error he =>
    rw [he.eq_shift]
    rfl

/-! ## Before a comma -/

namespace Grammar

variable {finish : Nat} {read : List Token} {e : SyntaxError}

theorem Missed.beforeComma {c : Category} (h : Missed finish c none e) (hc : c ≠ .comma)
    (finish' p : Nat) : Missed finish' c (some (commaAt p)) (e.beforeComma p) := by
  cases h with
  | atEnd => exact .found (Ne.symm hc)

theorem CoreBreak.beforeComma (h : CoreBreak finish read none e) (finish' p : Nat) :
    CoreBreak finish' read (some (commaAt p)) (e.beforeComma p) := by
  cases h with
  | missing => exact .badStart rfl
  | noNoun hd ha _ hmissed =>
    exact .noNoun hd ha (by simp [commaAt]) (hmissed.beforeComma (by decide) finish' p)

theorem ComplementsBreak.beforeComma (h : ComplementsBreak finish read none e)
    (finish' p : Nat) : ComplementsBreak finish' read (some (commaAt p)) (e.beforeComma p) := by
  cases h with
  | object hstart hcore =>
    refine .object ?_ (hcore.beforeComma finish' p)
    cases read with
    | nil => simp [startsPhrase] at hstart
    | cons t read => exact hstart
  | modifier hcs hp hcore => exact .modifier hcs hp (hcore.beforeComma finish' p)

theorem SentenceBreak.beforeComma (h : SentenceBreak finish read none e) (finish' p : Nat) :
    SentenceBreak finish' read (some (commaAt p)) (e.beforeComma p) := by
  cases h with
  | subject hcore => exact .subject (hcore.beforeComma finish' p)
  | subjectModifier hcore hms =>
    obtain ⟨hms, hp, hcore'⟩ := hms
    exact .subjectModifier hcore (.intro hms hp (hcore'.beforeComma finish' p))
  | noVerb hsubject ha _ _ hmissed =>
    exact .noVerb hsubject ha (fun _ => Or.inr (by simp [commaAt])) (by simp [commaAt])
      (hmissed.beforeComma (by decide) finish' p)
  | complements ho hcs => exact .complements ho (hcs.beforeComma finish' p)

/-- A segment that breaks off at the end of the input breaks off before a comma. -/
theorem SegmentBreak.beforeComma (h : SegmentBreak finish read none e) (hne : read ≠ [])
    (finish' p : Nat) : SegmentBreak finish' read (some (commaAt p)) (e.beforeComma p) := by
  cases h with
  | sentence hhead hsentence =>
    refine .sentence ?_ (hsentence.beforeComma finish' p)
    obtain ⟨t, ts, rfl⟩ := List.exists_cons_of_ne_nil hne
    exact hhead

end Grammar

/-- A comma after a segment changes the error at its end, and nothing else. -/
theorem segmentOutcome_comma {g : List Token} (hne : g ≠ [])
    (hg : ∀ t ∈ g, t.isSeparator = false) (p : Nat) :
    segmentOutcome (g ++ [commaAt p]) =
      (segmentOutcome g).mapError (SyntaxError.beforeComma p) := by
  cases h : segmentOutcome g with
  | ok u =>
    rw [(segmentOutcome_append_ok_iff hg rfl).2 ((segmentOutcome_ok_iff hg).1 h)]
    rfl
  | error e =>
    obtain ⟨read, left, rfl, hbreak⟩ := exists_segmentBreak h
    cases left with
    | nil =>
      rw [List.append_nil] at hne hbreak ⊢
      exact (hbreak.beforeComma hne _ p).fails.1
    | cons t left =>
      have hlocated : Located (some t) e := hbreak.located
      have houtcome := @segmentOutcome_of_break _ read (t :: left) [] (commaAt p) e hbreak
      rw [houtcome, Except.mapError, SyntaxError.beforeComma_eq_self hlocated.1]

end Concord
