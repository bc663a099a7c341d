import Concord.Grammar.Cursor
import Concord.Proofs.Grammar.Recognition

/-!
# Reading without recursion

A noun phrase is read by recursion: each of its prepositions asks for another noun phrase, which has
modifiers of its own, and a pronoun, which has none, hands the next preposition back outwards. But
it does not matter to which noun a modifier belongs, as only the number of the first one is handed
on. So the cores can be read in one loop that remembers nothing but its place in the tokens
(`coreLoop`), and the productions are the loop with what stands before it.

A *reading* is a program over a cursor. Productions that follow one another become readings that
follow one another (`reading_andThen`), which carries the equations of the grammar over.

Main statements: `reading_modifiers`, modifiers are read by the loop; `Cursor.productions_eq_loops`,
noun phrases and sentences are read with the loop in place of the recursion.
-/

namespace Concord

open Grammar

/-! ## One core at a time -/

/-- Reading modifiers after a whole noun phrase comes to reading them after its core. -/
theorem modifiedPhrase_same_core (finish : Nat) (ts : List Token) :
    (modifiedPhrase finish ts).Same
      ((phraseHead finish ts).andThen fun _ rest _ => modifiers finish rest) := by
  rcases (phraseHead finish ts).reads_or_fails with ⟨head, mid, hhead⟩ | ⟨e, rest, hhead⟩
  · have hcore := hhead.andThen_same fun _ rest _ => modifiers finish rest
    cases head with
    | pronoun n =>
      have hphrase : (nounPhrase finish ts).Reads n mid := nounPhrase_reads.2 (Or.inl hhead)
      exact (hphrase.andThen_same _).trans hcore.symm
    | noun n => exact (modifiedPhrase_same hhead).trans hcore.symm
  · have hphrase : (nounPhrase finish ts).Fails e rest := nounPhrase_fails.2 (Or.inl hhead)
    exact Step.Fails.same (Step.andThen_fails.2 (Or.inl hphrase))
      (Step.andThen_fails.2 (Or.inl hhead))

/-- Reads what belongs to a core: nothing to a pronoun, modifiers to a noun. -/
def afterCore (head : PhraseHead) (finish : Nat) (ts : List Token) : Step ts Number :=
  match head with
  | .pronoun n => .done n
  | .noun n => (modifiers finish ts).map fun _ => n

theorem nounPhrase_eq (finish : Nat) (ts : List Token) :
    nounPhrase finish ts =
      (phraseHead finish ts).andThen fun head rest _ => afterCore head finish rest := by
  rw [nounPhrase]
  rfl

/-! ## Loops -/

/-- A program over a cursor. An error ends it and leaves the cursor where it was met. -/
abbrev Reading (α : Type) := ExceptT SyntaxError (StateM Cursor) α

namespace Cursor

variable {α β : Type} {c c' : Cursor} {e : SyntaxError}

/-- Trying a production, as a reading. -/
def reading (production : Nat → (ts : List Token) → Step ts α) : Reading α :=
  fun c => c.attempt production

/-- Reads a noun phrase up to its noun or pronoun. -/
def core : Reading PhraseHead := reading phraseHead

/-- Passes the tokens of a category. -/
def passAll (k : Category) : Reading Unit := fun c =>
  (.ok (), ⟨c.tokens, dropCategory k c.rest, (dropCategory_suffix k c.rest).trans c.suffix⟩)

theorem length_rest_core_lt (h : nextCategory c.rest = some .preposition) :
    (core c.skip).2.rest.length < c.rest.length := by
  have hle : (core c.skip).2.rest.length ≤ c.rest.tail.length := Step.length_rest_le _
  cases hrest : c.rest with
  | nil => simp [hrest] at h
  | cons p us =>
    rw [hrest] at hle
    exact Nat.lt_succ_of_le hle

/-- While a preposition comes next, passes it and reads a core. The first error ends the loop. -/
def coreLoop (c : Cursor) : Except SyntaxError Unit × Cursor :=
  if _h : nextCategory c.rest = some .preposition then
    match _hcore : core c.skip with
    | (.ok _, c') => coreLoop c'
    | (.error e, c') => (.error e, c')
  else (.ok (), c)
termination_by c.rest.length
decreasing_by
  have hlt := length_rest_core_lt _h
  rwa [_hcore] at hlt

/-- Reads a noun phrase with a loop: its core, and the loop unless this was a pronoun. The number is
that of the first core. -/
def nounPhraseLoop : Reading Number := do
  match ← core with
  | .pronoun n => return n
  | .noun n =>
    coreLoop
    return n

/-- Reads what may follow a verb with a loop: the core of an object, if one begins here, and the
loop. -/
def complementsLoop : Reading Unit := fun c =>
  if startsPhrase c.rest then (do let _ ← core; coreLoop : Reading Unit) c else coreLoop c

/-- Reads a verb phrase for a subject of the given number, with a loop. -/
def verbPhraseLoop (subject : Number) : Reading Unit := do
  passAll .auxiliary
  let verb ← reading fun finish => Concord.accept finish .verb
  if verb.number ≠ subject then
    throw (.subjectVerbAgreement subject verb.word verb.number verb.position)
  else
    complementsLoop

/-- Reads a sentence with loops, one for its subject and one for what follows the verb. -/
def sentenceLoop : Reading Number := do
  let subject ← nounPhraseLoop
  verbPhraseLoop subject
  return subject

/-! ## Productions as readings -/

theorem bind_apply (x : Reading α) (f : α → Reading β) (c : Cursor) :
    (x >>= f) c = match x c with
      | (.ok a, c') => f a c'
      | (.error e, c') => (.error e, c') := by
  show (match x c with | (a, c') => ExceptT.bindCont f a c') = _
  rcases x c with ⟨e | a, c'⟩ <;> rfl

theorem reading_congr {p q : Nat → (ts : List Token) → Step ts α}
    (h : ∀ finish ts, (p finish ts).Same (q finish ts)) : reading p = reading q := by
  funext c
  obtain ⟨houtcome, hrest⟩ := h (endPosition c.tokens) c.rest
  show c.attempt p = c.attempt q
  simp only [attempt, houtcome, hrest]

/-- Going on after a step is going on after the reading. -/
theorem reading_andThen (p : Nat → (ts : List Token) → Step ts α)
    (q : α → Nat → (ts : List Token) → Step ts β) :
    (reading fun finish ts => (p finish ts).andThen fun a rest _ => q a finish rest) =
      (do reading (q (← reading p))) := by
  funext c
  cases h : p (endPosition c.tokens) c.rest with
  | mk outcome rest suffix =>
    rw [bind_apply]
    simp only [reading, attempt, h]
    cases outcome <;> rfl

theorem reading_map (f : α → β) (p : Nat → (ts : List Token) → Step ts α) :
    (reading fun finish ts => (p finish ts).map f) = (do return f (← reading p)) := by
  have hmap : ∀ finish ts, ((p finish ts).map f).Same
      ((p finish ts).andThen fun a _ _ => .done (f a)) := by
    intro finish ts
    cases p finish ts with
    | mk outcome rest suffix => cases outcome <;> exact ⟨rfl, rfl⟩
  rw [reading_congr hmap]
  exact reading_andThen p fun a _ _ => .done (f a)

/-- A noun phrase with modifiers after it is a core with modifiers after it. -/
theorem reading_modifiedPhrase :
    reading modifiedPhrase = (do let _ ← core; reading modifiers) := by
  rw [reading_congr modifiedPhrase_same_core]
  exact reading_andThen phraseHead fun _ => modifiers

theorem reading_modifiers_of_next (h : nextCategory c.rest = some .preposition) :
    reading modifiers c = reading modifiedPhrase c.skip := by
  obtain ⟨tokens, rest, suffix⟩ := c
  cases rest with
  | nil => simp at h
  | cons p us =>
    show attempt _ _ = attempt _ _
    simp only [attempt, modifiers_cons (show p.category = .preposition by simpa using h)]
    rfl

theorem reading_modifiers_of_not_next (h : nextCategory c.rest ≠ some .preposition) :
    reading modifiers c = (.ok (), c) := by
  show c.attempt modifiers = _
  simp only [attempt, modifiers_of_next_ne h]
  rfl

/-- Modifiers are read by the loop. -/
theorem reading_modifiers : reading modifiers = coreLoop := by
  funext c
  -- Every turn of the loop passes a preposition.
  induction hlen : c.rest.length using Nat.strongRecOn generalizing c with
  | ind k ih =>
    rw [coreLoop]
    split
    · next hnext =>
      have hlt := length_rest_core_lt hnext
      rw [reading_modifiers_of_next hnext, reading_modifiedPhrase]
      split
      · next c' hcore =>
        rw [hcore] at hlt
        rw [bind_apply, hcore]
        exact ih _ (hlen ▸ hlt) c' rfl
      · next e c' hcore => rw [bind_apply, hcore]
    · next hnext => exact reading_modifiers_of_not_next hnext

theorem reading_nounPhrase : reading Concord.nounPhrase = nounPhraseLoop := by
  have hphrase : reading Concord.nounPhrase = (do reading (afterCore (← core))) := by
    rw [core, ← reading_andThen]
    congr
    funext finish ts
    exact nounPhrase_eq finish ts
  rw [hphrase, nounPhraseLoop]
  congr
  funext head
  cases head with
  | pronoun n => rfl
  | noun n =>
    show reading (fun finish ts => (modifiers finish ts).map fun _ => n) = _
    rw [reading_map, reading_modifiers]

theorem reading_complements : reading complements = complementsLoop := by
  funext c
  rw [complementsLoop]
  show c.attempt complements = _
  cases hstart : startsPhrase c.rest with
  | true =>
    have hobject : c.attempt complements = reading modifiedPhrase c := by
      simp only [attempt, complements_of_startsPhrase hstart]
      rfl
    rw [hobject, reading_modifiedPhrase, reading_modifiers]
    rfl
  | false =>
    have hplain : c.attempt complements = reading modifiers c := by
      simp only [attempt, complements_of_not_startsPhrase hstart]
      rfl
    rw [hplain, reading_modifiers]
    rfl

theorem reading_verbPhrase (subject : Number) :
    (reading fun finish => verbPhrase finish subject) = verbPhraseLoop subject := by
  have hverb : (reading fun finish => verbPhrase finish subject) = (do
      passAll .auxiliary
      let verb ← reading fun finish => Concord.accept finish .verb
      reading fun finish rest =>
        if verb.number ≠ subject then
          .fail (.subjectVerbAgreement subject verb.word verb.number verb.position)
        else complements finish rest) :=
    reading_andThen (fun finish ts =>
      (Concord.accept finish .verb (dropCategory .auxiliary ts)).within
        (dropCategory_suffix .auxiliary ts)) _
  rw [hverb, verbPhraseLoop]
  congr
  funext _
  congr
  funext verb
  split
  · rfl
  · exact reading_complements

theorem reading_sentence : reading Concord.sentence = sentenceLoop := by
  have hsentence : reading Concord.sentence = (do
      let subject ← reading Concord.nounPhrase
      reading fun finish rest => (verbPhrase finish subject rest).map fun _ => subject) :=
    reading_andThen Concord.nounPhrase _
  rw [hsentence, reading_nounPhrase, sentenceLoop]
  congr
  funext subject
  rw [reading_map, reading_verbPhrase]

/-- From any place in any tokens, noun phrases and sentences are read by loops that keep nothing but
the cursor: they give the same number or the same error, and stop at the same place. -/
theorem productions_eq_loops (c : Cursor) :
    c.nounPhrase = nounPhraseLoop c ∧ c.sentence = sentenceLoop c :=
  ⟨congrFun reading_nounPhrase c, congrFun reading_sentence c⟩

end Cursor

end Concord
