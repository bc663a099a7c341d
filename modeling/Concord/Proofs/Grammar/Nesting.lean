import Concord.Proofs.Grammar.Recognition

/-!
# Noun phrases inside noun phrases

A noun phrase is read by recursion: each preposition among its modifiers asks for another noun
phrase. To speak of this recursion, the productions are written again with a parameter `inner`. It
tells how the noun phrases inside are read, or nothing at places where this is not known
(`nounPhraseWith`). Nothing comes of a production exactly if it asks at such a place. So an answer
that is withheld shows who asks for it (`Enters`), and answers known to a limited depth show how
deep the recursion goes (`nestedPhrase`).

Main statements: `prepositionalPhraseWith_enters_iff`, a prepositional phrase asks right after its
preposition; `exists_preposition_of_enters`, so a noun phrase asks only further on;
`nestedPhrase_eq`, the recursion is no deeper than the number of tokens left.
-/

namespace Concord

/-! ## Steps that may be missing -/

namespace Step

variable {ts : List Token} {α β : Type}

/-- Goes on with what a successful step left, where it is known how. -/
def andThen? (s : Step ts α)
    (next : α → (rest : List Token) → rest <:+ ts → Option (Step rest β)) : Option (Step ts β) :=
  match s with
  | ⟨.error e, rest, h⟩ => some ⟨.error e, rest, h⟩
  | ⟨.ok a, rest, h⟩ => (next a rest h).map (·.within h)

variable {s : Step ts α} {next? : α → (rest : List Token) → rest <:+ ts → Option (Step rest β)}

/-- Nothing comes of it exactly where a success is left and it is not known how to go on. -/
theorem andThen?_eq_none :
    s.andThen? next? = none ↔ ∃ a rest, ∃ h, s.Reads a rest ∧ next? a rest h = none := by
  obtain ⟨outcome, mid, hmid⟩ := s
  cases outcome with
  | error e => simp [andThen?, Reads]
  | ok a =>
    rw [andThen?, Option.map_eq_none_iff]
    constructor
    · intro hnone
      exact ⟨a, mid, hmid, ⟨rfl, rfl⟩, hnone⟩
    · rintro ⟨a', mid', h', ⟨ha, rfl⟩, hnone⟩
      obtain rfl : a = a' := Except.ok.inj ha
      exact hnone

/-- Going on succeeds only after a success, and gives nothing back. -/
theorem exists_of_andThen?_ok {s' : Step ts β} {b : β} (h : s.andThen? next? = some s')
    (hok : s'.outcome = .ok b) : ∃ a rest, s.Reads a rest ∧ s'.rest <:+ rest := by
  obtain ⟨outcome, mid, hmid⟩ := s
  cases outcome with
  | error e =>
    rw [andThen?, Option.some.injEq] at h
    simp [← h] at hok
  | ok a =>
    obtain ⟨s'', -, rfl⟩ := Option.map_eq_some_iff.1 h
    exact ⟨a, mid, ⟨rfl, rfl⟩, s''.suffix⟩

/-- Where it is known how to go on, the step goes on. -/
theorem andThen?_eq_some {next : α → (rest : List Token) → rest <:+ ts → Step rest β}
    (h : ∀ a rest hrest, s.Reads a rest → next? a rest hrest = some (next a rest hrest)) :
    s.andThen? next? = some (s.andThen next) := by
  obtain ⟨outcome, rest, hrest⟩ := s
  cases outcome with
  | error e => rfl
  | ok a => rw [andThen?, h a rest hrest ⟨rfl, rfl⟩, Option.map_some, andThen]

end Step

/-! ## Productions with a parameter -/

/-- Reads a preposition with its noun phrase. -/
def prepositionalPhrase (finish : Nat) (ts : List Token) : Step ts Unit :=
  (accept finish .preposition ts).andThen fun _ rest _ => (nounPhrase finish rest).map fun _ => ()

/-- How noun phrases inside others are read, or nothing at places where this is not known. -/
abbrev InnerPhrase := (ts : List Token) → Option (Step ts Number)

/-- Reads a preposition with its noun phrase. -/
def prepositionalPhraseWith (finish : Nat) (inner : InnerPhrase) (ts : List Token) :
    Option (Step ts Unit) :=
  (accept finish .preposition ts).andThen? fun _ rest _ => (inner rest).map (.map fun _ => ())

/-- A prepositional phrase consumes its preposition, however its noun phrase is read. -/
theorem prepositionalPhraseWith_length_lt {finish : Nat} {inner : InnerPhrase} {ts : List Token}
    {phrase : Step ts Unit} (h : prepositionalPhraseWith finish inner ts = some phrase)
    (hok : phrase.outcome = .ok ()) : phrase.rest.length < ts.length := by
  obtain ⟨p, rest, hreads, hrest⟩ := Step.exists_of_andThen?_ok h hok
  obtain ⟨rfl, -⟩ := accept_reads_iff.1 hreads
  exact Nat.lt_succ_of_le hrest.length_le

/-- Reads prepositional phrases as long as a preposition comes next. -/
def modifiersWith (finish : Nat) (inner : InnerPhrase) (ts : List Token) : Option (Step ts Unit) :=
  if nextCategory ts = some .preposition then
    match _h : prepositionalPhraseWith finish inner ts with
    | none => none
    | some ⟨.error e, rest, hrest⟩ => some ⟨.error e, rest, hrest⟩
    | some ⟨.ok (), rest, hrest⟩ => (modifiersWith finish inner rest).map (·.within hrest)
  else some (.done ())
termination_by ts.length
decreasing_by exact prepositionalPhraseWith_length_lt _h rfl

/-- Reads a noun phrase: its head, and prepositional phrases unless this was a pronoun. -/
def nounPhraseWith (finish : Nat) (inner : InnerPhrase) (ts : List Token) :
    Option (Step ts Number) :=
  (phraseHead finish ts).andThen? fun head rest _ =>
    match head with
    | .pronoun n => some (.done n)
    | .noun n => (modifiersWith finish inner rest).map (.map fun _ => n)

/-! ## The productions again -/

variable {finish : Nat} {inner : InnerPhrase} {ts us : List Token}

theorem prepositionalPhrase_cons {p : Token} (h : p.category = .preposition) :
    prepositionalPhrase finish (p :: us) =
      ((nounPhrase finish us).map fun _ => ()).within (List.suffix_cons p us) := by
  rw [prepositionalPhrase, accept, if_pos h]
  rfl

/-- Modifiers are prepositional phrases, as long as a preposition comes next. -/
theorem modifiers_eq_andThen (h : nextCategory ts = some .preposition) :
    modifiers finish ts =
      (prepositionalPhrase finish ts).andThen fun _ rest _ => modifiers finish rest := by
  cases ts with
  | nil => simp at h
  | cons p us =>
    have hp : p.category = .preposition := by simpa using h
    rw [modifiers_cons hp, prepositionalPhrase_cons hp, modifiedPhrase]
    rcases nounPhrase finish us with ⟨e | n, rest, hrest⟩ <;> rfl

/-- At all places further on in `ts` it is known, and right, how noun phrases are read. -/
def InnerPhrase.KnowsAfter (inner : InnerPhrase) (finish : Nat) (ts : List Token) : Prop :=
  ∀ us, us <:+ ts → us.length < ts.length → inner us = some (nounPhrase finish us)

theorem InnerPhrase.KnowsAfter.of_suffix (h : inner.KnowsAfter finish ts) (hus : us <:+ ts) :
    inner.KnowsAfter finish us :=
  fun vs hvs hlt => h vs (hvs.trans hus) (Nat.lt_of_lt_of_le hlt hus.length_le)

theorem prepositionalPhraseWith_eq (h : inner.KnowsAfter finish ts) :
    prepositionalPhraseWith finish inner ts = some (prepositionalPhrase finish ts) := by
  refine Step.andThen?_eq_some fun p rest hrest hreads => ?_
  obtain ⟨rfl, -⟩ := accept_reads_iff.1 hreads
  rw [h rest hrest (Nat.lt_succ_self _), Option.map_some]

theorem modifiersWith_eq {ts : List Token} (h : inner.KnowsAfter finish ts) :
    modifiersWith finish inner ts = some (modifiers finish ts) := by
  rw [modifiersWith]
  by_cases hnext : nextCategory ts = some .preposition
  · have hphrase := prepositionalPhraseWith_eq h
    rw [if_pos hnext, modifiers_eq_andThen hnext]
    split
    · next hnone => simp [hnone] at hphrase
    · next e rest hrest herror =>
      rw [← Option.some.inj (herror.symm.trans hphrase)]
      rfl
    · next rest hrest hok =>
      have hlt : rest.length < ts.length := prepositionalPhraseWith_length_lt hok rfl
      rw [← Option.some.inj (hok.symm.trans hphrase), modifiersWith_eq (h.of_suffix hrest)]
      rfl
  · rw [if_neg hnext, modifiers_of_next_ne hnext]
termination_by ts.length

/-- A prepositional phrase consumes at least one token. -/
theorem prepositionalPhrase_length_lt (hok : (prepositionalPhrase finish ts).outcome = .ok ()) :
    (prepositionalPhrase finish ts).rest.length < ts.length := by
  have hknown : InnerPhrase.KnowsAfter (fun us => some (nounPhrase finish us)) finish ts :=
    fun _ _ _ => rfl
  exact prepositionalPhraseWith_length_lt (prepositionalPhraseWith_eq hknown) hok

theorem nounPhraseWith_eq (h : inner.KnowsAfter finish ts) :
    nounPhraseWith finish inner ts = some (nounPhrase finish ts) := by
  rw [nounPhrase]
  refine Step.andThen?_eq_some fun head rest hrest _ => ?_
  cases head with
  | pronoun n => rfl
  | noun n =>
    simp only
    rw [modifiersWith_eq (h.of_suffix hrest), Option.map_some]

/-! ## Entering -/

/-- All is known but how to read a noun phrase at `us`. -/
def InnerPhrase.allBut (finish : Nat) (us : List Token) : InnerPhrase :=
  fun vs => if vs = us then none else some (nounPhrase finish vs)

theorem InnerPhrase.allBut_eq_none_iff {vs : List Token} :
    allBut finish us vs = none ↔ vs = us := by
  simp [allBut]

/-- Reading at `ts` enters a noun phrase at `us`: if it is not known how to read that one, nothing
comes of it. -/
def Enters {α : Type} (production : Nat → InnerPhrase → (ts : List Token) → Option (Step ts α))
    (finish : Nat) (ts us : List Token) : Prop :=
  production finish (.allBut finish us) ts = none

/-- A prepositional phrase enters the noun phrase right after its preposition and no other. -/
theorem prepositionalPhraseWith_enters_iff :
    Enters prepositionalPhraseWith finish ts us ↔
      ∃ p, ts = p :: us ∧ p.category = .preposition := by
  rw [Enters, prepositionalPhraseWith, Step.andThen?_eq_none]
  simp only [Option.map_eq_none_iff, InnerPhrase.allBut_eq_none_iff, accept_reads_iff]
  constructor
  · rintro ⟨p, rest, -, hp, rfl⟩
    exact ⟨p, hp⟩
  · rintro ⟨p, rfl, hp⟩
    exact ⟨p, us, List.suffix_cons p us, ⟨rfl, hp⟩, rfl⟩

/-- Where modifiers come to nothing, one of their prepositional phrases does. -/
theorem exists_of_modifiersWith_eq_none {ts : List Token}
    (h : modifiersWith finish inner ts = none) :
    ∃ vs, vs <:+ ts ∧ prepositionalPhraseWith finish inner vs = none := by
  rw [modifiersWith] at h
  split at h
  · split at h
    · next hnone => exact ⟨ts, List.suffix_rfl, hnone⟩
    · simp at h
    · next rest hrest hok =>
      have hlt : rest.length < ts.length := prepositionalPhraseWith_length_lt hok rfl
      obtain ⟨vs, hvs, hnone⟩ := exists_of_modifiersWith_eq_none (Option.map_eq_none_iff.1 h)
      exact ⟨vs, hvs.trans hrest, hnone⟩
  · simp at h
termination_by ts.length

/-- A noun phrase enters others only after its head, each right after a preposition. -/
theorem exists_preposition_of_enters (h : Enters nounPhraseWith finish ts us) :
    ∃ before p, ts = before ++ p :: us ∧ before ≠ [] ∧ p.category = .preposition := by
  rw [Enters, nounPhraseWith, Step.andThen?_eq_none] at h
  obtain ⟨head, mid, -, hreads, hnone⟩ := h
  cases head with
  | pronoun n => simp at hnone
  | noun n =>
    obtain ⟨vs, ⟨left, rfl⟩, hphrase⟩ :=
      exists_of_modifiersWith_eq_none (Option.map_eq_none_iff.1 hnone)
    obtain ⟨p, rfl, hp⟩ := prepositionalPhraseWith_enters_iff.1 hphrase
    obtain ⟨core, rfl, hcore⟩ := phraseHead_reads_iff.1 hreads
    have hne : core ≠ [] := by cases hcore <;> simp
    exact ⟨core ++ left, p, by simp, List.append_ne_nil_of_left_ne_nil hne left, hp⟩

/-- "Dogs near them" enters "them". -/
example :
    let them : Token := ⟨"them", .pronoun, .plural, 3⟩
    Enters nounPhraseWith 4
      [⟨"dogs", .noun, .plural, 1⟩, ⟨"near", .preposition, .any, 2⟩, them] [them] := by
  cbv

/-! ## Depth -/

/-- Reads noun phrases that are nested at most `depth` deep, the outermost counted. Nothing is known
of others. -/
def nestedPhrase (finish : Nat) : Nat → InnerPhrase
  | 0 => fun _ => none
  | depth + 1 => nounPhraseWith finish (nestedPhrase finish depth)

theorem knowsAfter_nestedPhrase {depth : Nat} (h : ts.length ≤ depth) :
    (nestedPhrase finish depth).KnowsAfter finish ts := by
  induction depth generalizing ts with
  | zero =>
    intro us _ hlt
    omega
  | succ depth ih =>
    intro us _ hlt
    exact nounPhraseWith_eq (ih (by omega))

/-- The recursion is no deeper than the number of tokens left. -/
theorem nestedPhrase_eq {depth : Nat} (h : ts.length < depth) :
    nestedPhrase finish depth ts = some (nounPhrase finish ts) := by
  cases depth with
  | zero => exact absurd h (Nat.not_lt_zero _)
  | succ depth => exact nounPhraseWith_eq (knowsAfter_nestedPhrase (Nat.le_of_lt_succ h))

end Concord
