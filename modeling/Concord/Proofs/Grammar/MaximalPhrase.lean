import Concord.Grammar.Cursor
import Concord.Proofs.Grammar.Recognition

/-!
# The phrase at a cursor

From any place in the tokens a production reads the phrase that begins there and goes as far as it
can. What may not stand after it depends on how it ends: a lone pronoun takes no modifiers, so that
anything may follow; after any other noun phrase, and after a sentence, no preposition stands; and
where a sentence ends with its verb, nothing that begins an object may follow either.

Main statements: `sentence_reads_greedy_iff`, which tokens are read as a sentence, told by the last
of them and by the next one; `Cursor.reads_maximal`, what the productions read from a cursor and
where they stop.
-/

namespace Concord

open Grammar

/-! ## Last tokens -/

/-- A lone pronoun is the only core that takes no modifiers. -/
theorem Grammar.Core.pronoun_iff {phrase : List Token} :
    (∃ n, Core (.pronoun n) phrase) ↔ ∃ t, phrase = [t] ∧ t.category = .pronoun := by
  constructor
  · rintro ⟨n, hcore⟩
    cases hcore with
    | @pronoun t ht => exact ⟨t, rfl, ht⟩
  · rintro ⟨t, rfl, ht⟩
    exact ⟨t.number, .pronoun ht⟩

/-- A sentence has no complements exactly if it ends with a verb, as complements hold none. -/
theorem Grammar.Opening.eq_nil_iff {n : Number} {opening cs : List Token}
    (ho : Opening n opening) (hcs : Complements cs) :
    cs = [] ↔ ∃ t, (opening ++ cs).getLast? = some t ∧ t.category = .verb := by
  constructor
  · rintro rfl
    cases ho with
    | @intro subject auxiliaries verb _ _ hverb _ => exact ⟨verb, by simp, hverb⟩
  · rintro ⟨t, hlast, hverb⟩
    rw [List.getLast?_append] at hlast
    cases hcomplement : cs.getLast? with
    | none => exact List.getLast?_eq_none_iff.1 hcomplement
    | some u =>
      obtain rfl : u = t := by simpa [hcomplement] using hlast
      have hnominal := hcs.nominal u (List.mem_of_getLast? hcomplement)
      simp [hverb, Category.nominal] at hnominal

/-- A sentence is read exactly where it is derivable, no modifiers follow it, and no object follows
a verb at its end. -/
theorem sentence_reads_greedy_iff {finish : Nat} {ts rest : List Token} {n : Number} :
    (sentence finish ts).Reads n rest ↔
      ∃ s, ts = s ++ rest ∧ Sentence n s ∧ nextCategory rest ≠ some .preposition ∧
        ((∃ t, s.getLast? = some t ∧ t.category = .verb) → startsPhrase rest = false) := by
  rw [sentence_reads_iff]
  constructor
  · rintro ⟨opening, cs, rfl, ho, hcs, hrest, hobject⟩
    refine ⟨opening ++ cs, by simp, .intro ho hcs, hrest, ?_⟩
    intro hlast
    exact hobject ((ho.eq_nil_iff hcs).2 hlast)
  · rintro ⟨s, rfl, hs, hrest, hobject⟩
    cases hs with
    | @intro opening cs ho hcs =>
      refine ⟨opening, cs, by simp, ho, hcs, hrest, ?_⟩
      intro hnil
      exact hobject ((ho.eq_nil_iff hcs).1 hnil)

theorem startsPhrase_eq_false_iff {ts : List Token} :
    startsPhrase ts = false ↔ nextCategory ts ≠ some .determiner ∧
      nextCategory ts ≠ some .pronoun ∧ nextCategory ts ≠ some .noun := by
  unfold startsPhrase
  cases nextCategory ts with
  | none => simp
  | some k => cases k <;> simp [Category.startsNounPhrase]

namespace Cursor

/-! ## Tokens after a cursor -/

/-- The tokens from the cursor up to another place. -/
def upTo (c : Cursor) (e : Nat) : List Token := (c.tokens.take e).drop c.index

/-- A token of the category stands at a place. -/
def StandsAt (c : Cursor) (i : Nat) (k : Category) : Prop :=
  ∃ t, c.tokens[i]? = some t ∧ t.category = k

variable {c : Cursor} {e : Nat}

theorem rest_eq_upTo (h : c.index ≤ e) : c.rest = c.upTo e ++ c.tokens.drop e := by
  have hle := c.index_le
  have hlength : c.index ≤ (c.tokens.take e).length := by
    rw [List.length_take]
    omega
  rw [rest_eq_drop, upTo, ← List.drop_append_of_le_length hlength, List.take_append_drop]

/-- The tokens up to a place are the ones that leave those from this place on. -/
theorem exists_append_iff (h : c.index ≤ e) {P : List Token → Prop} :
    (∃ phrase, c.rest = phrase ++ c.tokens.drop e ∧ P phrase) ↔ P (c.upTo e) := by
  constructor
  · rintro ⟨phrase, hphrase, hP⟩
    rw [rest_eq_upTo h] at hphrase
    rwa [List.append_cancel_right hphrase]
  · intro hP
    exact ⟨c.upTo e, rest_eq_upTo h, hP⟩

theorem standsAt_iff {k : Category} :
    c.StandsAt e k ↔ nextCategory (c.tokens.drop e) = some k := by
  rw [nextCategory, List.head?_drop, Option.map_eq_some_iff, StandsAt]

/-- The last of the tokens up to a place stands right before it. -/
theorem getLast?_upTo (hne : c.upTo e ≠ []) (he : e ≤ c.tokens.length) :
    (c.upTo e).getLast? = c.tokens[e - 1]? := by
  have hlength : (c.upTo e).length = e - c.index := by
    rw [upTo, List.length_drop, List.length_take, Nat.min_eq_left he]
  have hpos := List.length_pos_iff.2 hne
  rw [List.getLast?_eq_getElem?, hlength, upTo, List.getElem?_drop, List.getElem?_take_of_lt]
  · congr 1
    omega
  · omega

/-- A production succeeds and stops at a place exactly if it leaves the tokens from there on. -/
theorem attempt_reads_iff {α : Type} {production : Nat → (ts : List Token) → Step ts α} {a : α} :
    (c.attempt production).1 = .ok a ∧ (c.attempt production).2.index = e ↔
      c.index ≤ e ∧ e ≤ c.tokens.length ∧
        (production (endPosition c.tokens) c.rest).Reads a (c.tokens.drop e) := by
  rw [index_eq_iff]
  constructor
  · rintro ⟨hok, hle, hrest⟩
    have hmono := c.le_index_attempt production
    rw [index_eq_iff.2 ⟨hle, hrest⟩] at hmono
    exact ⟨hmono, hle, hok, hrest⟩
  · rintro ⟨-, hle, hok, hrest⟩
    exact ⟨hok, hle, hrest⟩

/-! ## Maximal phrases -/

/-- The tokens up to `e` are a noun phrase of number `n` that cannot go on there. -/
structure MaximalPhrase (c : Cursor) (n : Number) (e : Nat) : Prop where
  index_le : c.index ≤ e
  le_length : e ≤ c.tokens.length
  phrase : NounPhrase n (c.upTo e)
  closed : (∃ t, c.upTo e = [t] ∧ t.category = .pronoun) ∨ ¬ c.StandsAt e .preposition

/-- The tokens up to `e` are a sentence of number `n` that cannot go on there. -/
structure MaximalSentence (c : Cursor) (n : Number) (e : Nat) : Prop where
  index_le : c.index ≤ e
  le_length : e ≤ c.tokens.length
  sentence : Sentence n (c.upTo e)
  noModifier : ¬ c.StandsAt e .preposition
  noObject : c.StandsAt (e - 1) .verb →
    ¬ c.StandsAt e .determiner ∧ ¬ c.StandsAt e .pronoun ∧ ¬ c.StandsAt e .noun

theorem closed_upTo_iff :
    Closed (c.upTo e) (c.tokens.drop e) ↔
      (∃ t, c.upTo e = [t] ∧ t.category = .pronoun) ∨ ¬ c.StandsAt e .preposition := by
  rw [Closed, Core.pronoun_iff, standsAt_iff]

theorem nounPhrase_iff_maximal {n : Number} :
    c.nounPhrase.1 = .ok n ∧ c.nounPhrase.2.index = e ↔ c.MaximalPhrase n e := by
  rw [nounPhrase, attempt_reads_iff]
  constructor
  · rintro ⟨hindex, hle, hreads⟩
    obtain ⟨hphrase, hclosed⟩ := (exists_append_iff hindex).1 (nounPhrase_reads_iff.1 hreads)
    exact ⟨hindex, hle, hphrase, closed_upTo_iff.1 hclosed⟩
  · rintro ⟨hindex, hle, hphrase, hclosed⟩
    refine ⟨hindex, hle, nounPhrase_reads_iff.2 ((exists_append_iff hindex).2 ?_)⟩
    exact ⟨hphrase, closed_upTo_iff.2 hclosed⟩

/-- After a sentence that ends with its verb no object can follow. -/
theorem noObject_iff {n : Number} (hs : Sentence n (c.upTo e)) (he : e ≤ c.tokens.length) :
    ((∃ t, (c.upTo e).getLast? = some t ∧ t.category = .verb) →
        startsPhrase (c.tokens.drop e) = false) ↔
      (c.StandsAt (e - 1) .verb →
        ¬ c.StandsAt e .determiner ∧ ¬ c.StandsAt e .pronoun ∧ ¬ c.StandsAt e .noun) := by
  rw [getLast?_upTo hs.ne_nil he, startsPhrase_eq_false_iff]
  simp only [standsAt_iff (e := e)]
  rfl

theorem sentence_iff_maximal {n : Number} :
    c.sentence.1 = .ok n ∧ c.sentence.2.index = e ↔ c.MaximalSentence n e := by
  rw [Cursor.sentence, attempt_reads_iff]
  constructor
  · rintro ⟨hindex, hle, hreads⟩
    obtain ⟨hs, hmodifier, hobject⟩ :=
      (exists_append_iff hindex).1 (sentence_reads_greedy_iff.1 hreads)
    exact ⟨hindex, hle, hs, mt standsAt_iff.1 hmodifier, (noObject_iff hs hle).1 hobject⟩
  · rintro ⟨hindex, hle, hs, hmodifier, hobject⟩
    refine ⟨hindex, hle, sentence_reads_greedy_iff.2 ((exists_append_iff hindex).2 ?_)⟩
    exact ⟨hs, mt standsAt_iff.2 hmodifier, (noObject_iff hs hle).2 hobject⟩

/-- From any place in any tokens (`exists_index_eq`), a production succeeds with a number and stops
at a place exactly if the tokens up to there are a phrase of this number that cannot go on. So there
is at most one such phrase. -/
theorem reads_maximal (c : Cursor) :
    (∀ n e, c.nounPhrase.1 = .ok n ∧ c.nounPhrase.2.index = e ↔ c.MaximalPhrase n e) ∧
    (∀ n e, c.sentence.1 = .ok n ∧ c.sentence.2.index = e ↔ c.MaximalSentence n e) ∧
    (∀ n e n' e', c.MaximalPhrase n e → c.MaximalPhrase n' e' → n = n' ∧ e = e') ∧
    ∀ n e n' e', c.MaximalSentence n e → c.MaximalSentence n' e' → n = n' ∧ e = e' := by
  refine ⟨fun _ _ => nounPhrase_iff_maximal, fun _ _ => sentence_iff_maximal, ?_, ?_⟩
  · intro n e n' e' h h'
    obtain ⟨hok, hindex⟩ := nounPhrase_iff_maximal.2 h
    obtain ⟨hok', hindex'⟩ := nounPhrase_iff_maximal.2 h'
    exact ⟨Except.ok.inj (hok.symm.trans hok'), hindex.symm.trans hindex'⟩
  · intro n e n' e' h h'
    obtain ⟨hok, hindex⟩ := sentence_iff_maximal.2 h
    obtain ⟨hok', hindex'⟩ := sentence_iff_maximal.2 h'
    exact ⟨Except.ok.inj (hok.symm.trans hok'), hindex.symm.trans hindex'⟩

end Cursor

end Concord
