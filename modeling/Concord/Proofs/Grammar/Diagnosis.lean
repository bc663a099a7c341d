import Concord.Proofs.Grammar.Breakdown

/-!
# What an error tells

A break can lie deep inside a sentence, in the object of a preposition of an object. Its error is
about the tokens around it alone, and these can be described without the phrases they belong to: the
next token, which is not of a category that was asked for; the noun that was read last with its
determiner; the verb that was read last with the subject; or the end of the input (`Diagnosis`).

An error about the category of the next token does not depend on which token of this category it is.
So no such token can be passed there.

Main statements: `SentenceBreak.diagnosis`, the error of every break is explained by the tokens
around it; `NounPhraseBreak.of_found` and `SentenceBreak.of_found`, any other token of a category
that is refused is refused as well.
-/

namespace Concord

open Grammar

/-- The category that an error finds fault with. -/
def SyntaxError.found? : SyntaxError → Option Category
  | unexpectedToken _ found _ _ => some found
  | invalidNounPhraseStart found _ _ => some found
  | _ => none

/-- Whether an error reports that the input ended too early. -/
def SyntaxError.atEnd : SyntaxError → Bool
  | unexpectedEnd .. | missingNounPhrase .. => true
  | _ => false

/-! ## The end of the input -/

/-- There is a position after the last token. -/
def EndsInRange (tokens : List Token) : Prop :=
  ∀ t, tokens.getLast? = some t → t.position + 1 < positionLimit

/-- The position `p` comes right after the last token, if there is one after it. Where there is no
token, `p` is the first. -/
def PastLast (tokens : List Token) (p : Nat) : Prop :=
  (tokens = [] → p = 1) ∧
    ∀ t, tokens.getLast? = some t → t.position + 1 < positionLimit → p = t.position + 1

theorem endPosition_of_getLast? {tokens : List Token} {last : Token}
    (h : tokens.getLast? = some last) :
    endPosition tokens = (last.position + 1) % positionLimit := by
  rw [endPosition, h]

theorem pastLast_endPosition (tokens : List Token) : PastLast tokens (endPosition tokens) := by
  constructor
  · rintro rfl
    rfl
  · intro t ht hlt
    rw [endPosition_of_getLast? ht, Nat.mod_eq_of_lt hlt]

/-- The word "the" at a position. -/
def theAt (position : Nat) : Token := ⟨"the", .determiner, .any, position⟩

/-- Its core breaks off at the end. -/
theorem coreBreak_theAt (finish position : Nat) :
    Grammar.CoreBreak finish [theAt position] none (.unexpectedEnd .noun finish) :=
  .noNoun rfl (List.forall_mem_nil _) (by decide) .atEnd

namespace Grammar

/-! ## Noun phrases -/

/-- How a noun phrase breaks off: in its core, or in its modifiers. -/
inductive NounPhraseBreak (finish : Nat) : List Token → Option Token → SyntaxError → Prop
  | core {core : List Token} {next : Option Token} {e : SyntaxError} :
      CoreBreak finish core next e → NounPhraseBreak finish core next e
  | modifier {n : Number} {core ms : List Token} {next : Option Token} {e : SyntaxError} :
      Core (.noun n) core → ModifiersBreak finish ms next e →
      NounPhraseBreak finish (core ++ ms) next e

theorem nounPhraseBreak_of_fails {finish : Nat} {ts rest : List Token} {e : SyntaxError}
    (h : (nounPhrase finish ts).Fails e rest) : BreaksAt (NounPhraseBreak finish) ts e rest := by
  rcases nounPhrase_fails.1 h with hhead | ⟨n, mid, hhead, hms⟩
  · exact (phraseHead_fails_iff.1 hhead).imp fun _ _ => .core
  · obtain ⟨core, rfl, hcore⟩ := phraseHead_reads_iff.1 hhead
    exact (modifiers_fails_iff.1 hms).append core fun _ _ => .modifier hcore

/-- A broken noun phrase is refused, whatever follows the next token. -/
theorem NounPhraseBreak.fails {finish : Nat} {read left : List Token} {e : SyntaxError}
    (h : NounPhraseBreak finish read left.head? e) :
    (nounPhrase finish (read ++ left)).Fails e (e.unread left) := by
  cases h with
  | core hcore => exact nounPhrase_fails.2 (Or.inl hcore.fails)
  | @modifier n core ms _ _ hcore hms =>
    have hhead := hcore.reads finish (ms ++ left)
    have hfails := modifiers_fails_iff.2 ⟨ms, left, rfl, hms, rfl⟩
    rw [List.append_assoc]
    exact nounPhrase_fails.2 (Or.inr ⟨n, _, hhead, hfails⟩)

/-- A noun phrase that breaks off is a subject that breaks off. -/
theorem NounPhraseBreak.sentence {finish : Nat} {read : List Token} {next : Option Token}
    {e : SyntaxError} (h : NounPhraseBreak finish read next e) :
    SentenceBreak finish read next e := by
  cases h with
  | core hcore => exact .subject hcore
  | modifier hcore hms => exact .subjectModifier hcore hms

/-! ## Diagnosis -/

/-- What an error tells of the tokens read before a break and of the next token. -/
inductive Diagnosis (finish : Nat) : List Token → Option Token → SyntaxError → Prop
  | unexpectedEnd {read : List Token} {expected : Category} :
      Diagnosis finish read none (.unexpectedEnd expected finish)
  | missingNounPhrase {read : List Token} :
      Diagnosis finish read none (.missingNounPhrase finish)
  | unexpectedToken {read : List Token} {expected : Category} {t : Token} :
      t.category ≠ expected →
      Diagnosis finish read (some t) (.unexpectedToken expected t.category t.word t.position)
  | invalidNounPhraseStart {read : List Token} {t : Token} :
      t.category.startsNounPhrase = false →
      Diagnosis finish read (some t) (.invalidNounPhraseStart t.category t.word t.position)
  | bareSingularNoun {read : List Token} {noun : Token} :
      noun.category = .noun → noun.number.allowsBareNoun = false →
      Diagnosis finish read (some noun) (.bareSingularNoun noun.word noun.position)
  | determinerAgreement {before adjectives : List Token} {d noun : Token} :
      d.category = .determiner → (∀ a ∈ adjectives, a.category = .adjective) →
      noun.category = .noun → ¬ (d.number = .any ∨ d.number = noun.number.agreement) →
      Diagnosis finish (before ++ d :: adjectives) (some noun)
        (.determinerAgreement d.word d.number noun.word noun.number noun.position)
  | subjectVerbAgreement {n : Number} {subject auxiliaries : List Token} {verb : Token} :
      NounPhrase n subject → (∀ a ∈ auxiliaries, a.category = .auxiliary) →
      verb.category = .verb → verb.number ≠ n →
      Diagnosis finish (subject ++ auxiliaries) (some verb)
        (.subjectVerbAgreement n verb.word verb.number verb.position)

variable {finish : Nat} {read : List Token} {next : Option Token} {e : SyntaxError}

theorem Missed.diagnosis {c : Category} (h : Missed finish c next e) (read : List Token) :
    Diagnosis finish read next e := by
  cases h with
  | atEnd => exact .unexpectedEnd
  | found hne => exact .unexpectedToken hne

/-- The error of a core does not depend on the tokens before the core. -/
theorem CoreBreak.diagnosis (h : CoreBreak finish read next e) (before : List Token) :
    Diagnosis finish (before ++ read) next e := by
  cases h with
  | missing => exact .missingNounPhrase
  | badStart hstart => exact .invalidNounPhraseStart hstart
  | bareNoun hnoun hbare => exact .bareSingularNoun hnoun hbare
  | noNoun _ _ _ hmissed => exact hmissed.diagnosis _
  | disagreement hd ha hnoun hdisagree => exact .determinerAgreement hd ha hnoun hdisagree

theorem ModifiersBreak.diagnosis (h : ModifiersBreak finish read next e) (before : List Token) :
    Diagnosis finish (before ++ read) next e := by
  cases h with
  | @intro ms core p _ _ _ _ hcore => simpa using hcore.diagnosis (before ++ (ms ++ [p]))

theorem ComplementsBreak.diagnosis (h : ComplementsBreak finish read next e)
    (before : List Token) : Diagnosis finish (before ++ read) next e := by
  cases h with
  | object _ hcore => exact hcore.diagnosis before
  | @modifier cs core p _ _ _ _ hcore => simpa using hcore.diagnosis (before ++ (cs ++ [p]))

theorem SentenceBreak.diagnosis (h : SentenceBreak finish read next e) :
    Diagnosis finish read next e := by
  cases h with
  | subject hcore => exact hcore.diagnosis []
  | subjectModifier _ hms => exact hms.diagnosis _
  | noVerb _ _ _ _ hmissed => exact hmissed.diagnosis _
  | disagreement hsubject ha hverb hne => exact .subjectVerbAgreement hsubject ha hverb hne
  | complements _ hcs => exact hcs.diagnosis _

/-- An error fits what comes next: at the end it reports the end, otherwise it has the position of
the next token. A separator is never passed over. -/
def Located (next : Option Token) (e : SyntaxError) : Prop :=
  match next with
  | none => e.atEnd = true
  | some t => e.atEnd = false ∧ e.position = t.position ∧
      (t.isSeparator = true → ∀ us, e.unread (t :: us) = t :: us)

theorem Diagnosis.located (h : Diagnosis finish read next e) : Located next e := by
  cases h with
  | unexpectedEnd => rfl
  | missingNounPhrase => rfl
  | unexpectedToken _ => exact ⟨rfl, rfl, fun _ _ => rfl⟩
  | invalidNounPhraseStart _ => exact ⟨rfl, rfl, fun _ _ => rfl⟩
  | bareSingularNoun hnoun _ => exact ⟨rfl, rfl, by simp [Token.isSeparator, hnoun]⟩
  | determinerAgreement _ _ hnoun _ => exact ⟨rfl, rfl, by simp [Token.isSeparator, hnoun]⟩
  | subjectVerbAgreement _ _ hverb _ => exact ⟨rfl, rfl, by simp [Token.isSeparator, hverb]⟩

/-- An error at the end of the input has the position given for the end. -/
theorem Diagnosis.position_of_none (h : Diagnosis finish read none e) : e.position = finish := by
  cases h with
  | unexpectedEnd => rfl
  | missingNounPhrase => rfl

/-! ## Refused categories -/

/-- The category of the next token is the one that is found fault with. -/
theorem Diagnosis.category_of_found {c : Category} (h : Diagnosis finish read next e)
    (hfound : e.found? = some c) : next.map Token.category = some c := by
  cases h with
  | unexpectedToken _ => exact hfound
  | invalidNounPhraseStart _ => exact hfound
  | _ => simp [SyntaxError.found?] at hfound

theorem nextCategory_append_toList (read : List Token) {next next' : Option Token}
    (h : next.map Token.category = next'.map Token.category) :
    nextCategory (read ++ next.toList) = nextCategory (read ++ next'.toList) := by
  cases read with
  | cons t ts => rfl
  | nil => cases next <;> cases next' <;> simp_all

theorem Closed.of_category {phrase : List Token} {next' : Option Token}
    (h : Closed phrase next.toList) (hnext : next.map Token.category = next'.map Token.category) :
    Closed phrase next'.toList := by
  have hsame : nextCategory next.toList = nextCategory next'.toList :=
    nextCategory_append_toList [] hnext
  unfold Closed at h ⊢
  rwa [← hsame]

variable {t : Token}

theorem Missed.of_found {c : Category} (h : Missed finish c next e)
    (hfound : e.found? = some t.category) (finish' : Nat) :
    ∃ e', Missed finish' c (some t) e' := by
  cases h with
  | atEnd => simp [SyntaxError.found?] at hfound
  | found hne =>
    have hcategory := Option.some.inj hfound
    exact ⟨_, .found (hcategory ▸ hne)⟩

theorem CoreBreak.of_found (h : CoreBreak finish read next e)
    (hfound : e.found? = some t.category) (finish' : Nat) :
    ∃ e', CoreBreak finish' read (some t) e' := by
  have hnext := (h.diagnosis []).category_of_found hfound
  cases h with
  | badStart hstart =>
    have hcategory := Option.some.inj hfound
    exact ⟨_, .badStart (hcategory ▸ hstart)⟩
  | noNoun hd ha hne hmissed =>
    obtain ⟨e', hmissed'⟩ := hmissed.of_found hfound finish'
    rw [hnext] at hne
    exact ⟨e', .noNoun hd ha hne hmissed'⟩
  | _ => simp [SyntaxError.found?] at hfound

theorem ModifiersBreak.of_found (h : ModifiersBreak finish read next e)
    (hfound : e.found? = some t.category) (finish' : Nat) :
    ∃ e', ModifiersBreak finish' read (some t) e' := by
  obtain ⟨hms, hp, hcore⟩ := h
  obtain ⟨e', hcore'⟩ := hcore.of_found hfound finish'
  exact ⟨e', .intro hms hp hcore'⟩

theorem ComplementsBreak.of_found (h : ComplementsBreak finish read next e)
    (hfound : e.found? = some t.category) (finish' : Nat) :
    ∃ e', ComplementsBreak finish' read (some t) e' := by
  have hnext := (h.diagnosis []).category_of_found hfound
  cases h with
  | object hstart hcore =>
    obtain ⟨e', hcore'⟩ := hcore.of_found hfound finish'
    have hstart' : startsPhrase (read ++ (some t).toList) = true := by
      rwa [startsPhrase, ← nextCategory_append_toList read hnext]
    exact ⟨e', .object hstart' hcore'⟩
  | modifier hcs hp hcore =>
    obtain ⟨e', hcore'⟩ := hcore.of_found hfound finish'
    exact ⟨e', .modifier hcs hp hcore'⟩

/-- Any token of a refused category breaks a noun phrase. -/
theorem NounPhraseBreak.of_found (h : NounPhraseBreak finish read next e)
    (hfound : e.found? = some t.category) (finish' : Nat) :
    ∃ e', NounPhraseBreak finish' read (some t) e' := by
  cases h with
  | core hcore =>
    obtain ⟨e', hcore'⟩ := hcore.of_found hfound finish'
    exact ⟨e', .core hcore'⟩
  | modifier hcore hms =>
    obtain ⟨e', hms'⟩ := hms.of_found hfound finish'
    exact ⟨e', .modifier hcore hms'⟩

/-- Any token of a refused category breaks a sentence. -/
theorem SentenceBreak.of_found (h : SentenceBreak finish read next e)
    (hfound : e.found? = some t.category) (finish' : Nat) :
    ∃ e', SentenceBreak finish' read (some t) e' := by
  have hnext := h.diagnosis.category_of_found hfound
  cases h with
  | subject hcore =>
    obtain ⟨e', hcore'⟩ := hcore.of_found hfound finish'
    exact ⟨e', .subject hcore'⟩
  | subjectModifier hcore hms =>
    obtain ⟨e', hms'⟩ := hms.of_found hfound finish'
    exact ⟨e', .subjectModifier hcore hms'⟩
  | noVerb hsubject ha hclosed hne hmissed =>
    obtain ⟨e', hmissed'⟩ := hmissed.of_found hfound finish'
    rw [hnext] at hne
    exact ⟨e', .noVerb hsubject ha (fun hnil => (hclosed hnil).of_category hnext) hne hmissed'⟩
  | disagreement _ _ _ _ => simp [SyntaxError.found?] at hfound
  | complements ho hcs =>
    obtain ⟨e', hcs'⟩ := hcs.of_found hfound finish'
    exact ⟨e', .complements ho hcs'⟩

end Grammar

end Concord
