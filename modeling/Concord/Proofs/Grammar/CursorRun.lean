import Concord.Proofs.Grammar.Diagnosis
import Concord.Proofs.Grammar.MaximalPhrase

/-!
# Using a cursor

Any operations may be tried at a cursor in any order, also after failures. Two things can be relied
on. The cursor only moves forward, and it never passes a comma unless it is told to: by skipping, or
by accepting a comma (`comma_after`, one operation; `comma_run`, any number of them). And an error
is about the tokens where the cursor stopped (`Explained`), however deep in nested phrases the
production was. Where tokens are missing, the error is about the position after the last of them,
unless that is the greatest (`theGreatest_end_not_past_last`).

Main statements: `nounPhrase_explained` and `sentence_explained`, what an error says is so;
`run_disciplined`, the discipline of a cursor over all operations.
-/

namespace Concord

open Grammar

/-! ## Passed tokens -/

theorem SyntaxError.unread_eq_or (e : SyntaxError) (left : List Token) :
    e.unread left = left ∨ e.unread left = left.tail := by
  cases e <;> simp [unread]

/-- No separator is passed where a production breaks off. -/
theorem Grammar.BreaksAt.passes {broken : List Token → Option Token → SyntaxError → Prop}
    {ts rest : List Token} {e : SyntaxError} (h : BreaksAt broken ts e rest)
    (hread : ∀ read next, broken read next e →
      (∀ t ∈ read, t.isSeparator = false) ∧ Located next e) :
    ∃ passed, ts = passed ++ rest ∧ ∀ t ∈ passed, t.isSeparator = false := by
  obtain ⟨read, left, rfl, hbreak, rfl⟩ := h
  obtain ⟨hseparator, hlocated⟩ := hread read _ hbreak
  rcases e.unread_eq_or left with hleft | hleft
  · exact ⟨read, by rw [hleft], hseparator⟩
  · cases left with
    | nil => exact ⟨read, by simp [hleft], hseparator⟩
    | cons t us =>
      obtain ⟨-, -, hunread⟩ := hlocated
      have ht : t.isSeparator = false := by
        cases hsep : t.isSeparator with
        | false => rfl
        | true => simp [hunread hsep] at hleft
      refine ⟨read ++ [t], by simp [hleft], ?_⟩
      exact List.forall_mem_append.2 ⟨hseparator, List.forall_mem_singleton.2 ht⟩

/-- A noun phrase passes no separator, whether it is read or not. -/
theorem nounPhrase_passes (finish : Nat) (ts : List Token) :
    ∃ passed, ts = passed ++ (nounPhrase finish ts).rest ∧
      ∀ t ∈ passed, t.isSeparator = false := by
  rcases (nounPhrase finish ts).reads_or_fails with ⟨n, rest, hreads⟩ | ⟨e, rest, hfails⟩
  · obtain ⟨phrase, hts, hphrase, -⟩ := nounPhrase_reads_iff.1 hreads
    rw [hreads.2]
    exact ⟨phrase, hts, hphrase.not_separator⟩
  · rw [hfails.2]
    refine (nounPhraseBreak_of_fails hfails).passes ?_
    intro read next hbreak
    exact ⟨hbreak.sentence.not_separator, hbreak.sentence.diagnosis.located⟩

/-- A sentence passes no separator, whether it is read or not. -/
theorem sentence_passes (finish : Nat) (ts : List Token) :
    ∃ passed, ts = passed ++ (sentence finish ts).rest ∧
      ∀ t ∈ passed, t.isSeparator = false := by
  rcases (sentence finish ts).reads_or_fails with ⟨n, rest, hreads⟩ | ⟨e, rest, hfails⟩
  · obtain ⟨s, hts, hs, -⟩ := sentence_reads_greedy_iff.1 hreads
    rw [hreads.2]
    exact ⟨s, hts, hs.not_separator⟩
  · rw [hfails.2]
    refine (sentence_fails_iff.1 hfails).passes ?_
    intro read next hbreak
    exact ⟨hbreak.not_separator, hbreak.diagnosis.located⟩

namespace Cursor

/-! ## Operations -/

/-- What can be done with a cursor. -/
inductive Operation where
  | sentence
  | nounPhrase
  | accept (expected : Category)
  | skip
  | current
  deriving DecidableEq

/-- Where an operation leaves the cursor, whether it succeeds or not. -/
def after (c : Cursor) : Operation → Cursor
  | .sentence => c.sentence.2
  | .nounPhrase => c.nounPhrase.2
  | .accept expected => (c.accept expected).2
  | .skip => c.skip
  | .current => c

/-- Where some operations leave the cursor. -/
def run (c : Cursor) (ops : List Operation) : Cursor := ops.foldl after c

variable {c : Cursor} {α : Type} {production : Nat → (ts : List Token) → Step ts α}

@[simp] theorem run_nil : c.run [] = c := rfl

@[simp] theorem run_cons (op : Operation) (ops : List Operation) :
    c.run (op :: ops) = (c.after op).run ops := rfl

@[simp] theorem tokens_after (op : Operation) : (c.after op).tokens = c.tokens := by
  cases op <;> rfl

@[simp] theorem tokens_run (ops : List Operation) : (c.run ops).tokens = c.tokens := by
  induction ops generalizing c with
  | nil => rfl
  | cons op ops ih => rw [run_cons, ih, tokens_after]

theorem index_start (tokens : List Token) : (start tokens).index = 0 := Nat.sub_self _

theorem index_skip : c.skip.index = min (c.index + 1) c.tokens.length := by
  have hle := c.index_le
  have hrest : c.rest.length = c.tokens.length - c.index := by rw [rest_eq_drop, List.length_drop]
  show c.tokens.length - c.rest.tail.length = _
  rw [List.length_tail, hrest]
  omega

/-- No operation goes back. -/
theorem le_index_after (op : Operation) : c.index ≤ (c.after op).index := by
  have hle := c.index_le
  cases op with
  | sentence => exact c.le_index_attempt _
  | nounPhrase => exact c.le_index_attempt _
  | accept expected => exact c.le_index_attempt _
  | skip =>
    rw [after, index_skip]
    omega
  | current => exact Nat.le_refl _

theorem le_index_run (ops : List Operation) : c.index ≤ (c.run ops).index := by
  induction ops generalizing c with
  | nil => exact Nat.le_refl _
  | cons op ops ih => exact Nat.le_trans (le_index_after op) ih

/-! ## Commas -/

theorem mem_upTo {e i : Nat} {t : Token} (hi : c.index ≤ i) (hlt : i < e)
    (ht : c.tokens[i]? = some t) : t ∈ c.upTo e := by
  rw [upTo, List.mem_iff_getElem?]
  refine ⟨i - c.index, ?_⟩
  rw [List.getElem?_drop, Nat.add_sub_cancel' hi, List.getElem?_take_of_lt hlt, ht]

/-- A production that passes no separator passes no comma. -/
theorem not_separator_of_attempt
    (h : ∃ passed, c.rest = passed ++ (production (endPosition c.tokens) c.rest).rest ∧
      ∀ t ∈ passed, t.isSeparator = false)
    {i : Nat} {t : Token} (hi : c.index ≤ i) (hlt : i < (c.attempt production).2.index)
    (ht : c.tokens[i]? = some t) : t.isSeparator = false := by
  obtain ⟨passed, hpassed, hseparator⟩ := h
  have hrest : (production (endPosition c.tokens) c.rest).rest =
      c.tokens.drop (c.attempt production).2.index := rest_eq_drop (c.attempt production).2
  rw [hrest, rest_eq_upTo (c.le_index_attempt production)] at hpassed
  apply hseparator t
  rw [← List.append_cancel_right hpassed]
  exact mem_upTo hi hlt ht

/-- A production that gives back everything leaves the cursor where it is. -/
theorem attempt_eq_self
    (h : (production (endPosition c.tokens) c.rest).rest = c.rest) :
    (c.attempt production).2 = c := by
  obtain ⟨tokens, rest, suffix⟩ := c
  rw [attempt, mk.injEq]
  exact ⟨rfl, h⟩

/-- Accepting a token fails without moving, or passes one token of the category asked for. -/
theorem accept_cases (c : Cursor) (expected : Category) :
    ((∃ e, (c.accept expected).1 = .error e) ∧ (c.accept expected).2 = c) ∨
      ∃ t, (c.accept expected).1 = .ok t ∧ c.tokens[c.index]? = some t ∧
        t.category = expected ∧ (c.accept expected).2.index = c.index + 1 := by
  have hstep := (Concord.accept (endPosition c.tokens) expected c.rest).reads_or_fails
  rcases hstep with ⟨t, rest, hreads⟩ | ⟨e, rest, hfails⟩
  · obtain ⟨hrest, ht⟩ := accept_reads_iff.1 hreads
    have hnext : c.tokens[c.index]? = some t := by
      rw [← current?_eq, current?, hrest, List.head?_cons]
    have hpassed : c.rest = [t] ++ (c.accept expected).2.rest := by
      rw [hrest, ← hreads.2]
      rfl
    exact Or.inr ⟨t, hreads.1, hnext, ht, @index_eq_add c (c.accept expected).2 rfl [t] hpassed⟩
  · obtain ⟨-, hrest⟩ := accept_fails_iff.1 hfails
    exact Or.inl ⟨⟨e, hfails.1⟩, attempt_eq_self (hfails.2.trans hrest)⟩

/-- An operation that passes a comma passes nothing else, and it is told to do so. -/
theorem comma_after {op : Operation} {i : Nat} {t : Token} (hi : c.index ≤ i)
    (hlt : i < (c.after op).index) (ht : c.tokens[i]? = some t) (hcomma : t.category = .comma) :
    (op = .skip ∨ op = .accept .comma) ∧ c.index = i ∧ (c.after op).index = i + 1 := by
  have hseparator := Token.isSeparator_iff.2 hcomma
  cases op with
  | sentence =>
    have h := not_separator_of_attempt (sentence_passes _ _) hi hlt ht
    simp [h] at hseparator
  | nounPhrase =>
    have h := not_separator_of_attempt (nounPhrase_passes _ _) hi hlt ht
    simp [h] at hseparator
  | accept expected =>
    rw [after] at hlt ⊢
    rcases c.accept_cases expected with ⟨-, hstays⟩ | ⟨u, -, hu, hcategory, hindex⟩
    · rw [hstays] at hlt
      omega
    · obtain rfl : c.index = i := by omega
      obtain rfl : u = t := Option.some.inj (hu.symm.trans ht)
      obtain rfl : expected = .comma := hcategory.symm.trans hcomma
      exact ⟨Or.inr rfl, rfl, hindex⟩
  | skip =>
    rw [after, index_skip] at hlt ⊢
    obtain rfl : c.index = i := by omega
    exact ⟨Or.inl rfl, rfl, by omega⟩
  | current =>
    rw [after] at hlt
    omega

/-- A comma that was passed was passed by one operation that was told to do so. -/
theorem comma_run {ops : List Operation} {i : Nat} {t : Token} (hi : c.index ≤ i)
    (hlt : i < (c.run ops).index) (ht : c.tokens[i]? = some t) (hcomma : t.category = .comma) :
    ∃ earlier op later, ops = earlier ++ op :: later ∧ (op = .skip ∨ op = .accept .comma) ∧
      (c.run earlier).index = i ∧ (c.run (earlier ++ [op])).index = i + 1 := by
  induction ops generalizing c with
  | nil =>
    rw [run_nil] at hlt
    omega
  | cons op ops ih =>
    by_cases hpassed : i < (c.after op).index
    · obtain ⟨hop, hbefore, hafter⟩ := comma_after hi hpassed ht hcomma
      exact ⟨[], op, ops, rfl, hop, hbefore, hafter⟩
    · rw [← tokens_after op] at ht
      obtain ⟨earlier, op', later, rfl, hop, hbefore, hafter⟩ :=
        ih (Nat.not_lt.1 hpassed) hlt ht
      exact ⟨op :: earlier, op', later, rfl, hop, hbefore, hafter⟩

/-! ## Errors -/

/-- After the tokens `read`, a production fails at every token of a category. -/
def Refused {α : Type} (production : Nat → (ts : List Token) → Step ts α) (read : List Token)
    (k : Category) : Prop :=
  ∀ finish t more, t.category = k → ∃ e rest, (production finish (read ++ t :: more)).Fails e rest

/-- The last token passed from a cursor to the next. -/
def LastPassed (c c' : Cursor) (t : Token) : Prop :=
  c.index < c'.index ∧ c.tokens[c'.index - 1]? = some t

/-- What an error tells is so, where a production that was tried at the cursor `c` has stopped at
`c'`. -/
inductive Explained {α : Type} (production : Nat → (ts : List Token) → Step ts α)
    (c c' : Cursor) : SyntaxError → Prop
  | unexpectedEnd {expected : Category} {p : Nat} :
      c'.index = c.tokens.length → PastLast c.tokens p →
      Explained production c c' (.unexpectedEnd expected p)
  | missingNounPhrase {p : Nat} :
      c'.index = c.tokens.length → PastLast c.tokens p →
      Explained production c c' (.missingNounPhrase p)
  | unexpectedToken {expected : Category} {t : Token} :
      c.tokens[c'.index]? = some t → t.category ≠ expected →
      Refused production (c.upTo c'.index) t.category →
      Explained production c c' (.unexpectedToken expected t.category t.word t.position)
  | invalidNounPhraseStart {t : Token} :
      c.tokens[c'.index]? = some t → t.category.startsNounPhrase = false →
      Refused production (c.upTo c'.index) t.category →
      Explained production c c' (.invalidNounPhraseStart t.category t.word t.position)
  | bareSingularNoun {noun : Token} :
      LastPassed c c' noun → noun.category = .noun → noun.number.allowsBareNoun = false →
      Explained production c c' (.bareSingularNoun noun.word noun.position)
  | determinerAgreement {before adjectives : List Token} {d noun : Token} :
      LastPassed c c' noun → c.upTo (c'.index - 1) = before ++ d :: adjectives →
      d.category = .determiner → (∀ a ∈ adjectives, a.category = .adjective) →
      noun.category = .noun → ¬ (d.number = .any ∨ d.number = noun.number.agreement) →
      Explained production c c'
        (.determinerAgreement d.word d.number noun.word noun.number noun.position)
  | subjectVerbAgreement {n : Number} {subject auxiliaries : List Token} {verb : Token} :
      LastPassed c c' verb → c.upTo (c'.index - 1) = subject ++ auxiliaries →
      NounPhrase n subject → (∀ a ∈ auxiliaries, a.category = .auxiliary) →
      verb.category = .verb → verb.number ≠ n →
      Explained production c c' (.subjectVerbAgreement n verb.word verb.number verb.position)

/-- A production that fails only at breaks has read up to one of them. -/
theorem exists_break {broken : List Token → Option Token → SyntaxError → Prop} {e : SyntaxError}
    (hbreaks : ∀ {rest}, (production (endPosition c.tokens) c.rest).Fails e rest →
      BreaksAt broken c.rest e rest)
    (h : (c.attempt production).1 = .error e) :
    ∃ i, c.index ≤ i ∧ i ≤ c.tokens.length ∧ broken (c.upTo i) c.tokens[i]? e ∧
      (c.attempt production).2.rest = e.unread (c.tokens.drop i) := by
  obtain ⟨read, left, hts, hbreak, hrest⟩ := hbreaks ⟨h, rfl⟩
  have hindex : c.index ≤ c.index + read.length := Nat.le_add_right _ _
  have hleft : c.tokens.drop (c.index + read.length) = left := by
    rw [← List.drop_drop, ← rest_eq_drop, hts, List.drop_left]
  have hread : c.upTo (c.index + read.length) = read := by
    rw [rest_eq_upTo hindex, hleft] at hts
    exact List.append_cancel_right hts
  have hle := c.index_le
  have hlength := congrArg List.length hts
  rw [rest_eq_drop, List.length_drop, List.length_append] at hlength
  refine ⟨c.index + read.length, hindex, by omega, ?_, ?_⟩
  · rwa [hread, ← List.head?_drop, hleft]
  · rw [hleft]
    exact hrest

/-- The tokens around a break explain its error wherever the production was tried. -/
theorem explained_of_diagnosis {c' : Cursor} {e : SyntaxError} {i : Nat}
    (htokens : c'.tokens = c.tokens) (hi : c.index ≤ i) (hle : i ≤ c.tokens.length)
    (hrest : c'.rest = e.unread (c.tokens.drop i))
    (hrefused : ∀ k, e.found? = some k → Refused production (c.upTo i) k)
    (h : Diagnosis (endPosition c.tokens) (c.upTo i) c.tokens[i]? e) :
    Explained production c c' e := by
  have hstopped : c'.rest = c.tokens.drop i → c'.index = i := by
    intro hdrop
    exact index_eq_iff.2 ⟨htokens ▸ hle, htokens ▸ hdrop⟩
  have hpassed {t : Token} : c'.rest = (c.tokens.drop i).tail → c.tokens[i]? = some t →
      LastPassed c c' t ∧ c'.index - 1 = i := by
    intro hdrop ht
    have hlt := (List.getElem?_eq_some_iff.1 ht).1
    rw [List.tail_drop] at hdrop
    have hindex : c'.index = i + 1 := index_eq_iff.2 ⟨htokens ▸ hlt, htokens ▸ hdrop⟩
    rw [LastPassed, hindex, Nat.add_sub_cancel]
    exact ⟨⟨by omega, ht⟩, rfl⟩
  generalize hread : c.upTo i = read at h
  generalize hnext : c.tokens[i]? = next at h
  cases h with
  | unexpectedEnd =>
    have hlength := List.getElem?_eq_none_iff.1 hnext
    exact .unexpectedEnd (by rw [hstopped hrest]; omega) (pastLast_endPosition _)
  | missingNounPhrase =>
    have hlength := List.getElem?_eq_none_iff.1 hnext
    exact .missingNounPhrase (by rw [hstopped hrest]; omega) (pastLast_endPosition _)
  | unexpectedToken hne =>
    have hindex := hstopped hrest
    exact .unexpectedToken (hindex ▸ hnext) hne (hindex ▸ hrefused _ rfl)
  | invalidNounPhraseStart hstart =>
    have hindex := hstopped hrest
    exact .invalidNounPhraseStart (hindex ▸ hnext) hstart (hindex ▸ hrefused _ rfl)
  | bareSingularNoun hnoun hbare => exact .bareSingularNoun (hpassed hrest hnext).1 hnoun hbare
  | determinerAgreement hd ha hnoun hdisagree =>
    obtain ⟨hlast, hindex⟩ := hpassed hrest hnext
    exact .determinerAgreement hlast (hindex ▸ hread) hd ha hnoun hdisagree
  | subjectVerbAgreement hsubject ha hverb hne =>
    obtain ⟨hlast, hindex⟩ := hpassed hrest hnext
    exact .subjectVerbAgreement hlast (hindex ▸ hread) hsubject ha hverb hne

theorem nounPhrase_explained {e : SyntaxError} (h : c.nounPhrase.1 = .error e) :
    Explained Concord.nounPhrase c c.nounPhrase.2 e := by
  obtain ⟨i, hi, hle, hbreak, hrest⟩ := exists_break nounPhraseBreak_of_fails h
  refine explained_of_diagnosis rfl hi hle hrest ?_ hbreak.sentence.diagnosis
  intro k hfound finish t more ht
  obtain ⟨e', hbreak'⟩ := hbreak.of_found (ht ▸ hfound) finish
  exact ⟨e', _, @NounPhraseBreak.fails finish _ (t :: more) e' hbreak'⟩

theorem sentence_explained {e : SyntaxError} (h : c.sentence.1 = .error e) :
    Explained Concord.sentence c c.sentence.2 e := by
  obtain ⟨i, hi, hle, hbreak, hrest⟩ := exists_break sentence_fails_iff.1 h
  refine explained_of_diagnosis rfl hi hle hrest ?_ hbreak.diagnosis
  intro k hfound finish t more ht
  obtain ⟨e', hbreak'⟩ := hbreak.of_found (ht ▸ hfound) finish
  exact ⟨e', _, @SentenceBreak.fails finish _ (t :: more) e' hbreak'⟩

/-! ## The discipline -/

/-- What holds of a cursor at the beginning of `tokens` after some operations. -/
structure Disciplined (tokens : List Token) (ops : List Operation) (c : Cursor) : Prop where
  tokens_eq : c.tokens = tokens
  index_le : c.index ≤ tokens.length
  forward : ∀ more, c.index ≤ (c.run more).index
  current : c.after .current = c
  refuses : ∀ k e, (c.accept k).1 = .error e → c.after (.accept k) = c
  commas : ∀ i t, i < c.index → tokens[i]? = some t → t.category = .comma →
    ∃ earlier op later, ops = earlier ++ op :: later ∧ (op = .skip ∨ op = .accept .comma) ∧
      ((start tokens).run earlier).index = i ∧
      ((start tokens).run (earlier ++ [op])).index = i + 1
  nounPhrase : ∀ e, c.nounPhrase.1 = .error e →
    Explained Concord.nounPhrase c (c.after .nounPhrase) e
  sentence : ∀ e, c.sentence.1 = .error e → Explained Concord.sentence c (c.after .sentence) e

/-- The discipline is kept whatever was done with the cursor before. -/
theorem run_disciplined (tokens : List Token) (ops : List Operation) :
    Disciplined tokens ops ((start tokens).run ops) where
  tokens_eq := tokens_run ops
  index_le := by
    have hle := ((start tokens).run ops).index_le
    rwa [tokens_run] at hle
  forward := le_index_run
  current := rfl
  refuses := by
    intro k e he
    rcases accept_cases _ k with ⟨-, hstays⟩ | ⟨t, hok, -⟩
    · exact hstays
    · simp [he] at hok
  commas := by
    intro i t hi ht hcomma
    exact comma_run (index_start tokens ▸ Nat.zero_le i) hi ht hcomma
  nounPhrase := fun _ => nounPhrase_explained
  sentence := fun _ => sentence_explained

/-- No position comes after the greatest. A noun phrase that breaks off behind a token with this
position reports 0. -/
theorem theGreatest_end_not_past_last :
    (start [theAt (positionLimit - 1)]).nounPhrase.1 = .error (.unexpectedEnd .noun 0) ∧
    (start [theAt (positionLimit - 1)]).nounPhrase.2.index = 1 ∧
    [theAt (positionLimit - 1)].getLast? = some (theAt (positionLimit - 1)) ∧
    0 ≠ (theAt (positionLimit - 1)).position + 1 := by
  have hbreak : NounPhraseBreak (endPosition [theAt (positionLimit - 1)])
      [theAt (positionLimit - 1)] ([] : List Token).head? (.unexpectedEnd .noun 0) :=
    .core (coreBreak_theAt _ _)
  obtain ⟨herror, hrest⟩ := hbreak.fails
  exact ⟨herror, index_eq_iff.2 ⟨Nat.le_refl 1, hrest⟩, rfl, Nat.zero_ne_add_one _⟩

end Cursor

end Concord
