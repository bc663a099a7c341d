import Mathlib.Data.List.Forall2
import Concord.Proofs.Grammar.Acceptance

/-!
# Tokens that are alike

The grammar asks for the categories and numbers of tokens, and for nothing else. So where one list
of tokens is like another, token by token, in these respects (`Alike`), a phrase of the one is a
phrase of the other, and a break of the one is a break of the other. The words and positions of an
error are then those of the corresponding tokens (`ErrorAlike`).

Main statements: `Sentence.alike`, sentences are kept; `SegmentBreak.alike`, breaks are kept, with
the corresponding error; `scanSentence_alike`, so is what is read of a sentence and what is left.
-/

namespace Concord

open Grammar List

/-- Related tokens have the same category and the same number. -/
structure Alike (R : Token → Token → Prop) : Prop where
  category {t u : Token} : R t u → u.category = t.category
  number {t u : Token} : R t u → u.number = t.number

/-- Errors that are reported for related tokens, or for the ends of the two inputs. -/
inductive ErrorAlike (R : Token → Token → Prop) (finish finish' : Nat) :
    SyntaxError → SyntaxError → Prop
  | unexpectedToken {expected : Category} {t u : Token} : R t u →
      ErrorAlike R finish finish' (.unexpectedToken expected t.category t.word t.position)
        (.unexpectedToken expected u.category u.word u.position)
  | unexpectedEnd {expected : Category} :
      ErrorAlike R finish finish' (.unexpectedEnd expected finish) (.unexpectedEnd expected finish')
  | missingNounPhrase :
      ErrorAlike R finish finish' (.missingNounPhrase finish) (.missingNounPhrase finish')
  | invalidNounPhraseStart {t u : Token} : R t u →
      ErrorAlike R finish finish' (.invalidNounPhraseStart t.category t.word t.position)
        (.invalidNounPhraseStart u.category u.word u.position)
  | determinerAgreement {d d' noun noun' : Token} : R d d' → R noun noun' →
      ErrorAlike R finish finish'
        (.determinerAgreement d.word d.number noun.word noun.number noun.position)
        (.determinerAgreement d'.word d'.number noun'.word noun'.number noun'.position)
  | bareSingularNoun {t u : Token} : R t u →
      ErrorAlike R finish finish' (.bareSingularNoun t.word t.position)
        (.bareSingularNoun u.word u.position)
  | subjectVerbAgreement {subject : Number} {t u : Token} : R t u →
      ErrorAlike R finish finish' (.subjectVerbAgreement subject t.word t.number t.position)
        (.subjectVerbAgreement subject u.word u.number u.position)
  | leadingSeparator {t u : Token} : R t u →
      ErrorAlike R finish finish' (.leadingSeparator t.position) (.leadingSeparator u.position)
  | expectedSeparator {t u : Token} : R t u →
      ErrorAlike R finish finish' (.expectedSeparator t.word t.position)
        (.expectedSeparator u.word u.position)

variable {R : Token → Token → Prop}

/-! ## Corresponding lists -/

theorem exists_append_of_forall₂ {as bs us : List Token} (h : Forall₂ R (as ++ bs) us) :
    ∃ as' bs', us = as' ++ bs' ∧ Forall₂ R as as' ∧ Forall₂ R bs bs' := by
  induction as generalizing us with
  | nil => exact ⟨[], us, rfl, .nil, h⟩
  | cons a as ih =>
    obtain ⟨u, us, ha, hrest, rfl⟩ := forall₂_cons_left_iff.1 h
    obtain ⟨as', bs', rfl, has, hbs⟩ := ih hrest
    exact ⟨u :: as', bs', rfl, .cons ha has, hbs⟩

theorem exists_of_forall₂_singleton {t : Token} {us : List Token} (h : Forall₂ R [t] us) :
    ∃ u, us = [u] ∧ R t u := by
  obtain ⟨u, us, ht, hnil, rfl⟩ := forall₂_cons_left_iff.1 h
  obtain rfl := forall₂_nil_left_iff.1 hnil
  exact ⟨u, rfl, ht⟩

theorem rel_head? {ts us : List Token} (h : Forall₂ R ts us) : Option.Rel R ts.head? us.head? := by
  cases h with
  | nil => exact .none
  | cons ht _ => exact .some ht

theorem forall₂_toList {next next' : Option Token} (h : Option.Rel R next next') :
    Forall₂ R next.toList next'.toList := by
  cases h with
  | none => exact .nil
  | some ht => exact .cons ht .nil

namespace Alike

variable {ts us : List Token} {t u : Token}

theorem isSeparator (hR : Alike R) (h : R t u) : u.isSeparator = t.isSeparator := by
  rw [Token.isSeparator, hR.category h, Token.isSeparator]

/-- Corresponding tokens are all of one category together. -/
theorem categories (hR : Alike R) {c : Category} (hts : ∀ t ∈ ts, t.category = c)
    (h : Forall₂ R ts us) : ∀ u ∈ us, u.category = c := by
  induction h with
  | nil => exact forall_mem_nil _
  | cons ht _ ih =>
    obtain ⟨hc, hts⟩ := forall_mem_cons.1 hts
    exact forall_mem_cons.2 ⟨(hR.category ht).trans hc, ih hts⟩

theorem map_category (hR : Alike R) {next next' : Option Token} (h : Option.Rel R next next') :
    next'.map Token.category = next.map Token.category := by
  cases h with
  | none => rfl
  | some ht => exact congrArg some (hR.category ht)

theorem any_isSeparator (hR : Alike R) {next next' : Option Token} (h : Option.Rel R next next') :
    next'.any Token.isSeparator = next.any Token.isSeparator := by
  cases h with
  | none => rfl
  | some ht => exact hR.isSeparator ht

theorem nextCategory_eq (hR : Alike R) (h : Forall₂ R ts us) : nextCategory us = nextCategory ts :=
  hR.map_category (rel_head? h)

end Alike

namespace Grammar

/-! ## Phrases -/

theorem Core.alike (hR : Alike R) {head : PhraseHead} {ts us : List Token} (h : Core head ts)
    (hts : Forall₂ R ts us) : Core head us := by
  cases h with
  | pronoun ht =>
    obtain ⟨u, rfl, hu⟩ := exists_of_forall₂_singleton hts
    rw [← hR.number hu]
    exact .pronoun ((hR.category hu).trans ht)
  | determined hd ha hn hagree =>
    obtain ⟨d', _, hdd, hrest, rfl⟩ := forall₂_cons_left_iff.1 hts
    obtain ⟨as', _, rfl, has, hnoun⟩ := exists_append_of_forall₂ hrest
    obtain ⟨noun', rfl, hnn⟩ := exists_of_forall₂_singleton hnoun
    rw [← hR.number hnn] at hagree ⊢
    rw [← hR.number hdd] at hagree
    exact .determined ((hR.category hdd).trans hd) (hR.categories ha has)
      ((hR.category hnn).trans hn) hagree
  | bare hn hbare =>
    obtain ⟨noun', rfl, hnn⟩ := exists_of_forall₂_singleton hts
    rw [← hR.number hnn] at hbare ⊢
    exact .bare ((hR.category hnn).trans hn) hbare

mutual

theorem NounPhrase.alike (hR : Alike R) {n : Number} {ts us : List Token} :
    NounPhrase n ts → Forall₂ R ts us → NounPhrase n us
  | .pronoun hcore, hts => .pronoun (hcore.alike hR hts)
  | .noun hcore hms, hts => by
    obtain ⟨core', ms', rfl, hcore', hms'⟩ := exists_append_of_forall₂ hts
    exact .noun (hcore.alike hR hcore') (hms.alike hR hms')

theorem Modifiers.alike (hR : Alike R) {ts us : List Token} :
    Modifiers ts → Forall₂ R ts us → Modifiers us
  | .nil, hts => by
    obtain rfl := forall₂_nil_left_iff.1 hts
    exact .nil
  | .cons hp hphrase hms, hts => by
    obtain ⟨p', _, hpp, hrest, rfl⟩ := forall₂_cons_left_iff.1 hts
    obtain ⟨phrase', ms', rfl, hphrase', hms'⟩ := exists_append_of_forall₂ hrest
    exact .cons ((hR.category hpp).trans hp) (hphrase.alike hR hphrase') (hms.alike hR hms')

end

theorem Opening.alike (hR : Alike R) {n : Number} {ts us : List Token} (h : Opening n ts)
    (hts : Forall₂ R ts us) : Opening n us := by
  cases h with
  | intro hsubject hauxiliaries hverb hn =>
    obtain ⟨subject', _, rfl, hsubject', hrest⟩ := exists_append_of_forall₂ hts
    obtain ⟨auxiliaries', _, rfl, hauxiliaries', hv⟩ := exists_append_of_forall₂ hrest
    obtain ⟨verb', rfl, hvv⟩ := exists_of_forall₂_singleton hv
    exact .intro (hsubject.alike hR hsubject') (hR.categories hauxiliaries hauxiliaries')
      ((hR.category hvv).trans hverb) ((hR.number hvv).trans hn)

theorem Complements.alike (hR : Alike R) {ts us : List Token} (h : Complements ts)
    (hts : Forall₂ R ts us) : Complements us := by
  cases h with
  | plain hms => exact .plain (hms.alike hR hts)
  | object hphrase hms =>
    obtain ⟨phrase', ms', rfl, hphrase', hms'⟩ := exists_append_of_forall₂ hts
    exact .object (hphrase.alike hR hphrase') (hms.alike hR hms')

theorem Sentence.alike (hR : Alike R) {n : Number} {ts us : List Token} (h : Sentence n ts)
    (hts : Forall₂ R ts us) : Sentence n us := by
  cases h with
  | intro ho hcs =>
    obtain ⟨opening', cs', rfl, ho', hcs'⟩ := exists_append_of_forall₂ hts
    exact .intro (ho.alike hR ho') (hcs.alike hR hcs')

theorem Closed.alike (hR : Alike R) {phrase phrase' rest rest' : List Token}
    (h : Closed phrase rest) (hphrase : Forall₂ R phrase phrase') (hrest : Forall₂ R rest rest') :
    Closed phrase' rest' := by
  refine h.imp (fun ⟨n, hcore⟩ => ⟨n, hcore.alike hR hphrase⟩) fun hnext => ?_
  rwa [hR.nextCategory_eq hrest]

/-! ## Breaks -/

section Breaks

variable {finish : Nat} {read read' : List Token} {next next' : Option Token} {e : SyntaxError}

theorem Missed.alike (hR : Alike R) {c : Category} (h : Missed finish c next e) (finish' : Nat)
    (hnext : Option.Rel R next next') :
    ∃ e', Missed finish' c next' e' ∧ ErrorAlike R finish finish' e e' := by
  cases h with
  | atEnd =>
    cases hnext
    exact ⟨_, .atEnd, .unexpectedEnd⟩
  | found hne =>
    cases hnext with
    | some ht => exact ⟨_, .found (by rwa [hR.category ht]), .unexpectedToken ht⟩

theorem CoreBreak.alike (hR : Alike R) (h : CoreBreak finish read next e) (finish' : Nat)
    (hread : Forall₂ R read read') (hnext : Option.Rel R next next') :
    ∃ e', CoreBreak finish' read' next' e' ∧ ErrorAlike R finish finish' e e' := by
  cases h with
  | missing =>
    obtain rfl := forall₂_nil_left_iff.1 hread
    cases hnext
    exact ⟨_, .missing, .missingNounPhrase⟩
  | badStart hstart =>
    obtain rfl := forall₂_nil_left_iff.1 hread
    cases hnext with
    | some ht => exact ⟨_, .badStart (by rwa [hR.category ht]), .invalidNounPhraseStart ht⟩
  | bareNoun hnoun hbare =>
    obtain rfl := forall₂_nil_left_iff.1 hread
    cases hnext with
    | some ht =>
      exact ⟨_, .bareNoun ((hR.category ht).trans hnoun) (by rwa [hR.number ht]),
        .bareSingularNoun ht⟩
  | noNoun hd ha hne hmissed =>
    obtain ⟨d', as', hdd, has, rfl⟩ := forall₂_cons_left_iff.1 hread
    obtain ⟨e', hmissed', he⟩ := hmissed.alike hR finish' hnext
    exact ⟨e', .noNoun ((hR.category hdd).trans hd) (hR.categories ha has)
      (by rwa [hR.map_category hnext]) hmissed', he⟩
  | disagreement hd ha hnoun hdisagree =>
    obtain ⟨d', as', hdd, has, rfl⟩ := forall₂_cons_left_iff.1 hread
    cases hnext with
    | some hnn =>
      exact ⟨_, .disagreement ((hR.category hdd).trans hd) (hR.categories ha has)
        ((hR.category hnn).trans hnoun) (by rwa [hR.number hdd, hR.number hnn]),
        .determinerAgreement hdd hnn⟩

theorem ModifiersBreak.alike (hR : Alike R) (h : ModifiersBreak finish read next e) (finish' : Nat)
    (hread : Forall₂ R read read') (hnext : Option.Rel R next next') :
    ∃ e', ModifiersBreak finish' read' next' e' ∧ ErrorAlike R finish finish' e e' := by
  obtain ⟨hms, hp, hcore⟩ := h
  obtain ⟨ms', _, rfl, hms', hrest⟩ := exists_append_of_forall₂ hread
  obtain ⟨p', core', hpp, hcore', rfl⟩ := forall₂_cons_left_iff.1 hrest
  obtain ⟨e', hbreak, he⟩ := hcore.alike hR finish' hcore' hnext
  exact ⟨e', .intro (hms.alike hR hms') ((hR.category hpp).trans hp) hbreak, he⟩

theorem ComplementsBreak.alike (hR : Alike R) (h : ComplementsBreak finish read next e)
    (finish' : Nat) (hread : Forall₂ R read read') (hnext : Option.Rel R next next') :
    ∃ e', ComplementsBreak finish' read' next' e' ∧ ErrorAlike R finish finish' e e' := by
  cases h with
  | object hstart hcore =>
    obtain ⟨e', hbreak, he⟩ := hcore.alike hR finish' hread hnext
    have hall : Forall₂ R (read ++ next.toList) (read' ++ next'.toList) :=
      rel_append hread (forall₂_toList hnext)
    have hstart' : startsPhrase (read' ++ next'.toList) = true := by
      rwa [startsPhrase, hR.nextCategory_eq hall]
    exact ⟨e', .object hstart' hbreak, he⟩
  | modifier hcs hp hcore =>
    obtain ⟨cs', _, rfl, hcs', hrest⟩ := exists_append_of_forall₂ hread
    obtain ⟨p', core', hpp, hcore', rfl⟩ := forall₂_cons_left_iff.1 hrest
    obtain ⟨e', hbreak, he⟩ := hcore.alike hR finish' hcore' hnext
    exact ⟨e', .modifier (hcs.alike hR hcs') ((hR.category hpp).trans hp) hbreak, he⟩

theorem SentenceBreak.alike (hR : Alike R) (h : SentenceBreak finish read next e) (finish' : Nat)
    (hread : Forall₂ R read read') (hnext : Option.Rel R next next') :
    ∃ e', SentenceBreak finish' read' next' e' ∧ ErrorAlike R finish finish' e e' := by
  cases h with
  | subject hcore =>
    obtain ⟨e', hbreak, he⟩ := hcore.alike hR finish' hread hnext
    exact ⟨e', .subject hbreak, he⟩
  | subjectModifier hcore hms =>
    obtain ⟨core', ms', rfl, hcore', hms'⟩ := exists_append_of_forall₂ hread
    obtain ⟨e', hbreak, he⟩ := hms.alike hR finish' hms' hnext
    exact ⟨e', .subjectModifier (hcore.alike hR hcore') hbreak, he⟩
  | noVerb hsubject hauxiliaries hclosed hne hmissed =>
    obtain ⟨subject', auxiliaries', rfl, hsubject', hauxiliaries'⟩ := exists_append_of_forall₂ hread
    obtain ⟨e', hmissed', he⟩ := hmissed.alike hR finish' hnext
    refine ⟨e', .noVerb (hsubject.alike hR hsubject') (hR.categories hauxiliaries hauxiliaries')
      (fun hnil => ?_) (by rwa [hR.map_category hnext]) hmissed', he⟩
    subst hnil
    obtain rfl := forall₂_nil_right_iff.1 hauxiliaries'
    exact (hclosed rfl).alike hR hsubject' (forall₂_toList hnext)
  | disagreement hsubject hauxiliaries hverb hne =>
    obtain ⟨subject', auxiliaries', rfl, hsubject', hauxiliaries'⟩ := exists_append_of_forall₂ hread
    cases hnext with
    | some hvv =>
      exact ⟨_, .disagreement (hsubject.alike hR hsubject')
        (hR.categories hauxiliaries hauxiliaries') ((hR.category hvv).trans hverb)
        (by rwa [hR.number hvv]), .subjectVerbAgreement hvv⟩
  | complements ho hcs =>
    obtain ⟨opening', cs', rfl, ho', hcs'⟩ := exists_append_of_forall₂ hread
    obtain ⟨e', hbreak, he⟩ := hcs.alike hR finish' hcs' hnext
    exact ⟨e', .complements (ho.alike hR ho') hbreak, he⟩

theorem SegmentBreak.alike (hR : Alike R) (h : SegmentBreak finish read next e) (finish' : Nat)
    (hread : Forall₂ R read read') (hnext : Option.Rel R next next') :
    ∃ e', SegmentBreak finish' read' next' e' ∧ ErrorAlike R finish finish' e e' := by
  cases h with
  | leading hc =>
    obtain rfl := forall₂_nil_left_iff.1 hread
    cases hnext with
    | some ht => exact ⟨_, .leading (by rwa [hR.isSeparator ht]), .leadingSeparator ht⟩
  | sentence hhead hsentence =>
    obtain ⟨e', hbreak, he⟩ := hsentence.alike hR finish' hread hnext
    have hall : Forall₂ R (read ++ next.toList) (read' ++ next'.toList) :=
      rel_append hread (forall₂_toList hnext)
    exact ⟨e', .sentence (by rwa [hR.any_isSeparator (rel_head? hall)]) hbreak, he⟩
  | overlong ho hcs ht hprep hobject =>
    obtain ⟨opening', cs', rfl, ho', hcs'⟩ := exists_append_of_forall₂ hread
    cases hnext with
    | some htt =>
      refine ⟨_, .overlong (ho.alike hR ho') (hcs.alike hR hcs') (by rwa [hR.isSeparator htt])
        (by rwa [hR.category htt]) (fun hnil => ?_), .expectedSeparator htt⟩
      subst hnil
      rw [hR.category htt]
      exact hobject (forall₂_nil_right_iff.1 hcs')

end Breaks

end Grammar

/-! ## Segments -/

/-- Both steps succeeded, or both failed with corresponding errors. -/
inductive OutcomeAlike (R : Token → Token → Prop) (finish finish' : Nat) :
    Except SyntaxError Unit → Except SyntaxError Unit → Prop
  | ok : OutcomeAlike R finish finish' (.ok ()) (.ok ())
  | error {e e' : SyntaxError} : ErrorAlike R finish finish' e e' →
      OutcomeAlike R finish finish' (.error e) (.error e')

/-- What corresponding errors leave unread corresponds. -/
theorem ErrorAlike.unread {finish finish' : Nat} {e e' : SyntaxError}
    (he : ErrorAlike R finish finish' e e') {ts us : List Token} (h : Forall₂ R ts us) :
    Forall₂ R (e.unread ts) (e'.unread us) := by
  have htail : Forall₂ R ts.tail us.tail := by
    cases h with
    | nil => exact .nil
    | cons _ hrest => exact hrest
  cases he with
  | determinerAgreement => exact htail
  | bareSingularNoun => exact htail
  | subjectVerbAgreement => exact htail
  | _ => exact h

/-- From corresponding tokens, reading a segment ends alike and leaves corresponding tokens. -/
theorem scanSentence_alike (hR : Alike R) (finish finish' : Nat) {ts us : List Token}
    (h : Forall₂ R ts us) :
    OutcomeAlike R finish finish' (scanSentence finish ts).outcome
        (scanSentence finish' us).outcome ∧
      Forall₂ R (scanSentence finish ts).rest (scanSentence finish' us).rest := by
  rcases (scanSentence finish ts).reads_or_fails with ⟨_, rest, hreads⟩ | ⟨e, rest, hfails⟩
  · have hreads' : ∃ rest', (scanSentence finish' us).Reads () rest' ∧ Forall₂ R rest rest' := by
      obtain ⟨n, s, hs, hcase⟩ := scanSentence_reads_iff.1 hreads
      rcases hcase with ⟨rfl, rfl⟩ | ⟨c, hc, rfl⟩
      · exact ⟨[], scanSentence_reads_iff.2 ⟨n, us, hs.alike hR h, Or.inl ⟨rfl, rfl⟩⟩, .nil⟩
      · obtain ⟨s', _, rfl, hs', hrest⟩ := exists_append_of_forall₂ h
        obtain ⟨c', rest', hcc, hrest', rfl⟩ := forall₂_cons_left_iff.1 hrest
        have hc' : c'.isSeparator = true := by rwa [hR.isSeparator hcc]
        refine ⟨rest', scanSentence_reads_iff.2 ⟨n, s', hs.alike hR hs', Or.inr ?_⟩, hrest'⟩
        exact ⟨c', hc', rfl⟩
    obtain ⟨rest', hreads', hrest⟩ := hreads'
    rw [hreads.1, hreads'.1, hreads.2, hreads'.2]
    exact ⟨.ok, hrest⟩
  · obtain ⟨read, left, rfl, hbreak, hrest⟩ := scanSentence_fails_iff.1 hfails
    obtain ⟨read', left', rfl, hread, hleft⟩ := exists_append_of_forall₂ h
    obtain ⟨e', hbreak', he⟩ := hbreak.alike hR finish' hread (rel_head? hleft)
    have hfails' := hbreak'.fails
    rw [hfails.1, hfails'.1, hfails.2, hfails'.2, hrest]
    exact ⟨.error he, he.unread hleft⟩

/-- Corresponding segments are both accepted, or have corresponding errors. -/
theorem segmentOutcome_alike (hR : Alike R) {g g' : List Token} (h : Forall₂ R g g') :
    OutcomeAlike R (endPosition g) (endPosition g') (segmentOutcome g) (segmentOutcome g') :=
  (scanSentence_alike hR _ _ h).1

end Concord
