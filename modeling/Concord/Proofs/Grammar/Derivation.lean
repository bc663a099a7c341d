import Concord.Grammar.Phrase

/-!
# The attributed grammar

What a phrase is, apart from how it is read. Each relation ties the number that a phrase hands on to
the tokens that form it; a program is tied to the number of its sentences.

    Core       = PRON | DET ADJ* N | N
    NounPhrase = PRON | Core Modifiers
    Modifiers  = (PREP NounPhrase)*
    Opening    = NounPhrase AUX* V
    Sentence   = Opening [NounPhrase] Modifiers
    Program    = Sentence (COMMA Sentence)* [COMMA]

The grammar is ambiguous: in "the book on the table near the door" the last modifier may belong to
either noun. So one list of tokens can have several derivations, but never with different numbers.

Main statements: `NounPhrase.not_separator` and `Sentence.not_separator`, a phrase holds no
separator; `Modifiers.append` and `Modifiers.snoc`, modifiers can be added at the end.
-/

namespace Concord

/-- The category of the next token, if there is one. -/
def nextCategory (ts : List Token) : Option Category := ts.head?.map Token.category

@[simp] theorem nextCategory_nil : nextCategory [] = none := rfl

@[simp] theorem nextCategory_cons (t : Token) (ts : List Token) :
    nextCategory (t :: ts) = some t.category := rfl

theorem Token.isSeparator_iff {t : Token} : t.isSeparator = true ↔ t.category = .comma := by
  simp [isSeparator]

theorem Number.allowsBareNoun_iff {n : Number} :
    n.allowsBareNoun = true ↔ n = .plural ∨ n = .uncountable ∨ n = .collective := by
  cases n <;> simp [allowsBareNoun]

/-- Whether a word of this category can belong to a noun phrase or to its modifiers. -/
def Category.nominal : Category → Bool
  | verb | auxiliary | comma => false
  | _ => true

/-- A token of any category but the comma is no separator. -/
theorem Token.isSeparator_of_category {t : Token} {c : Category} (h : t.category = c)
    (hc : c ≠ .comma) : t.isSeparator = false := by
  simpa [isSeparator, h] using hc

theorem Token.isSeparator_of_nominal {t : Token} (h : t.category.nominal = true) :
    t.isSeparator = false := by
  apply isSeparator_of_category rfl
  intro hcomma
  simp [hcomma, Category.nominal] at h

/-- A separator is not among tokens that are none. -/
theorem not_mem_of_isSeparator {g : List Token} {c : Token}
    (hg : ∀ t ∈ g, t.isSeparator = false) (hc : c.isSeparator = true) : c ∉ g := by
  intro hmem
  rw [hg c hmem] at hc
  simp at hc

namespace Grammar

/-! ## Phrases -/

/-- A noun phrase up to its noun or pronoun. -/
inductive Core : PhraseHead → List Token → Prop
  | pronoun {t : Token} : t.category = .pronoun → Core (.pronoun t.number) [t]
  | determined {d noun : Token} {adjectives : List Token} :
      d.category = .determiner → (∀ a ∈ adjectives, a.category = .adjective) →
      noun.category = .noun → (d.number = .any ∨ d.number = noun.number.agreement) →
      Core (.noun noun.number.agreement) (d :: (adjectives ++ [noun]))
  | bare {noun : Token} : noun.category = .noun →
      (noun.number = .plural ∨ noun.number = .uncountable ∨ noun.number = .collective) →
      Core (.noun noun.number.agreement) [noun]

mutual

/-- A noun phrase that hands on a number. -/
inductive NounPhrase : Number → List Token → Prop
  | pronoun {n : Number} {core : List Token} : Core (.pronoun n) core → NounPhrase n core
  | noun {n : Number} {core ms : List Token} :
      Core (.noun n) core → Modifiers ms → NounPhrase n (core ++ ms)

/-- Any number of prepositional phrases. -/
inductive Modifiers : List Token → Prop
  | nil : Modifiers []
  | cons {p : Token} {n : Number} {phrase ms : List Token} :
      p.category = .preposition → NounPhrase n phrase → Modifiers ms →
      Modifiers (p :: (phrase ++ ms))

end

/-- A subject of the given number with its verb. -/
inductive Opening : Number → List Token → Prop
  | intro {n : Number} {subject auxiliaries : List Token} {verb : Token} :
      NounPhrase n subject → (∀ a ∈ auxiliaries, a.category = .auxiliary) →
      verb.category = .verb → verb.number = n → Opening n (subject ++ (auxiliaries ++ [verb]))

/-- What may follow a verb. -/
inductive Complements : List Token → Prop
  | plain {ms : List Token} : Modifiers ms → Complements ms
  | object {n : Number} {phrase ms : List Token} :
      NounPhrase n phrase → Modifiers ms → Complements (phrase ++ ms)

/-- A sentence whose subject has the given number. -/
inductive Sentence : Number → List Token → Prop
  | intro {n : Number} {opening complements : List Token} :
      Opening n opening → Complements complements → Sentence n (opening ++ complements)

/-- A program of the given number of sentences. -/
inductive Program : Nat → List Token → Prop
  | sentence {n : Number} {s : List Token} : Sentence n s → Program 1 s
  | trailing {n : Number} {s : List Token} {comma : Token} :
      Sentence n s → comma.isSeparator = true → Program 1 (s ++ [comma])
  | cons {n : Number} {s ts : List Token} {comma : Token} {k : Nat} :
      Sentence n s → comma.isSeparator = true → Program k ts → Program (k + 1) (s ++ comma :: ts)

/-! ## First tokens -/

/-- A core begins with a token that can begin a noun phrase. -/
theorem Core.exists_cons {h : PhraseHead} {ts : List Token} (hc : Core h ts) :
    ∃ t us, ts = t :: us ∧ t.category.startsNounPhrase = true := by
  cases hc with
  | pronoun ht => exact ⟨_, _, rfl, by rw [ht]; rfl⟩
  | determined hd _ _ _ => exact ⟨_, _, rfl, by rw [hd]; rfl⟩
  | bare hn _ => exact ⟨_, _, rfl, by rw [hn]; rfl⟩

theorem NounPhrase.exists_cons {n : Number} {ts : List Token} (hp : NounPhrase n ts) :
    ∃ t us, ts = t :: us ∧ t.category.startsNounPhrase = true := by
  cases hp with
  | pronoun hc => exact hc.exists_cons
  | noun hc _ =>
    obtain ⟨t, us, rfl, ht⟩ := hc.exists_cons
    exact ⟨t, _, rfl, ht⟩

theorem Opening.ne_nil {n : Number} {ts : List Token} (ho : Opening n ts) : ts ≠ [] := by
  cases ho
  simp

theorem Sentence.ne_nil {n : Number} {ts : List Token} (hs : Sentence n ts) : ts ≠ [] := by
  cases hs with
  | intro ho _ => simp [ho.ne_nil]

/-! ## Words of a phrase -/

theorem Core.nominal {h : PhraseHead} {ts : List Token} (hc : Core h ts) :
    ∀ t ∈ ts, t.category.nominal = true := by
  have one {t : Token} {c : Category} (ht : t.category = c) (hc : c.nominal = true) :
      ∀ u ∈ [t], u.category.nominal = true :=
    List.forall_mem_singleton.2 (ht ▸ hc)
  cases hc with
  | pronoun hp => exact one hp rfl
  | bare hn _ => exact one hn rfl
  | determined hd ha hn _ =>
    refine List.forall_mem_cons.2 ⟨hd ▸ rfl, ?_⟩
    refine List.forall_mem_append.2 ⟨fun a hmem => ?_, one hn rfl⟩
    rw [ha a hmem]
    rfl

mutual

theorem NounPhrase.nominal {n : Number} {ts : List Token} :
    NounPhrase n ts → ∀ t ∈ ts, t.category.nominal = true
  | .pronoun hc => hc.nominal
  | .noun hc hms => List.forall_mem_append.2 ⟨hc.nominal, hms.nominal⟩

theorem Modifiers.nominal {ts : List Token} : Modifiers ts → ∀ t ∈ ts, t.category.nominal = true
  | .nil => List.forall_mem_nil _
  | .cons hp hphrase hms => by
    refine List.forall_mem_cons.2 ⟨hp ▸ rfl, ?_⟩
    exact List.forall_mem_append.2 ⟨hphrase.nominal, hms.nominal⟩

end

theorem Complements.nominal {ts : List Token} (hcs : Complements ts) :
    ∀ t ∈ ts, t.category.nominal = true := by
  cases hcs with
  | plain hms => exact hms.nominal
  | object hphrase hms => exact List.forall_mem_append.2 ⟨hphrase.nominal, hms.nominal⟩

/-! ## Phrases hold no separator -/

theorem Core.not_separator {h : PhraseHead} {ts : List Token} (hc : Core h ts) :
    ∀ t ∈ ts, t.isSeparator = false :=
  fun t ht => Token.isSeparator_of_nominal (hc.nominal t ht)

theorem NounPhrase.not_separator {n : Number} {ts : List Token} (hp : NounPhrase n ts) :
    ∀ t ∈ ts, t.isSeparator = false :=
  fun t ht => Token.isSeparator_of_nominal (hp.nominal t ht)

theorem Modifiers.not_separator {ts : List Token} (hms : Modifiers ts) :
    ∀ t ∈ ts, t.isSeparator = false :=
  fun t ht => Token.isSeparator_of_nominal (hms.nominal t ht)

theorem Complements.not_separator {ts : List Token} (hcs : Complements ts) :
    ∀ t ∈ ts, t.isSeparator = false :=
  fun t ht => Token.isSeparator_of_nominal (hcs.nominal t ht)

theorem Opening.not_separator {n : Number} {ts : List Token} (ho : Opening n ts) :
    ∀ t ∈ ts, t.isSeparator = false := by
  cases ho with
  | intro hsubject hauxiliaries hverb _ =>
    refine List.forall_mem_append.2 ⟨hsubject.not_separator, ?_⟩
    refine List.forall_mem_append.2 ⟨fun a hmem => ?_, List.forall_mem_singleton.2 ?_⟩
    · exact Token.isSeparator_of_category (hauxiliaries a hmem) (by decide)
    · exact Token.isSeparator_of_category hverb (by decide)

theorem Sentence.not_separator {n : Number} {ts : List Token} (hs : Sentence n ts) :
    ∀ t ∈ ts, t.isSeparator = false := by
  cases hs with
  | intro ho hcs => exact List.forall_mem_append.2 ⟨ho.not_separator, hcs.not_separator⟩

/-! ## Adding modifiers -/

theorem Modifiers.append {as bs : List Token} :
    Modifiers as → Modifiers bs → Modifiers (as ++ bs)
  | .nil, hbs => hbs
  | .cons hp hphrase has, hbs => by
    rw [List.cons_append, List.append_assoc]
    exact .cons hp hphrase (has.append hbs)

/-- One more prepositional phrase. -/
theorem Modifiers.snoc {ms phrase : List Token} {p : Token} {n : Number} (hms : Modifiers ms)
    (hp : p.category = .preposition) (hphrase : NounPhrase n phrase) :
    Modifiers (ms ++ p :: phrase) := by
  simpa using hms.append (.cons hp hphrase .nil)

/-- More modifiers of the last noun. -/
theorem Complements.append {cs ms : List Token} (hcs : Complements cs) (hms : Modifiers ms) :
    Complements (cs ++ ms) := by
  cases hcs with
  | plain has => exact .plain (has.append hms)
  | object hphrase has =>
    rw [List.append_assoc]
    exact .object hphrase (has.append hms)

end Grammar

end Concord
