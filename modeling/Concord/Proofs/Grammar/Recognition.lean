import Concord.Proofs.Grammar.Derivation
import Concord.Proofs.Grammar.Outcome

/-!
# What the productions read

A production is greedy and never goes back, whereas a derivation may hang a modifier on any noun.
The two meet in the lemma of *absorption*: after a noun phrase, reading modifiers ends exactly as
reading them does without that noun phrase (`absorb_nounPhrase`), and modifiers that are derivable
change nothing for those after them (`absorb_modifiers`).

Main statements: `nounPhrase_reads_iff` and `sentence_reads_iff`, what a production reads is derived
by the grammar, and what the grammar derives is read where nothing stands after it that could go on.
-/

namespace Concord

open Grammar

/-! ## Single tokens -/

theorem accept_reads_iff {finish : Nat} {c : Category} {ts rest : List Token} {t : Token} :
    (accept finish c ts).Reads t rest ↔ ts = t :: rest ∧ t.category = c := by
  cases ts with
  | nil => simp [accept]
  | cons u us =>
    by_cases hu : u.category = c
    · simp only [accept, if_pos hu, Step.Reads, Except.ok.injEq, List.cons.injEq]
      refine ⟨?_, ?_⟩
      · intro h
        exact ⟨h, h.1 ▸ hu⟩
      · intro h
        exact h.1
    · simp only [accept, if_neg hu, Step.fail_reads, List.cons.injEq, false_iff]
      intro h
      exact hu (h.1.1 ▸ h.2)

/-- The tokens of a category at the beginning are dropped, and no others. -/
theorem exists_dropCategory (c : Category) (ts : List Token) :
    ∃ run, ts = run ++ dropCategory c ts ∧ (∀ t ∈ run, t.category = c) ∧
      nextCategory (dropCategory c ts) ≠ some c := by
  refine ⟨ts.takeWhile fun t => t.category == c, List.takeWhile_append_dropWhile.symm, ?_, ?_⟩
  · intro t ht
    exact beq_iff_eq.1 (List.all_eq_true.1 List.all_takeWhile t ht)
  · have hnext := List.head?_dropWhile_not (fun t : Token => t.category == c) ts
    unfold nextCategory dropCategory
    cases h : (ts.dropWhile fun t => t.category == c).head? with
    | none => simp
    | some t => simpa [h] using hnext

theorem dropCategory_append {c : Category} {run rest : List Token}
    (hrun : ∀ t ∈ run, t.category = c) (hrest : nextCategory rest ≠ some c) :
    dropCategory c (run ++ rest) = rest := by
  have hpos : ∀ t ∈ run, (t.category == c) = true := by simpa using hrun
  rw [dropCategory, List.dropWhile_append_of_pos hpos]
  cases rest with
  | nil => rfl
  | cons t ts => exact List.dropWhile_cons_of_neg (by simpa using hrest)

/-- Reading a token after some that may be passed over. -/
theorem accept_dropCategory_reads_iff {finish : Nat} {skipped c : Category} (hne : c ≠ skipped)
    {ts rest : List Token} {t : Token} :
    (accept finish c (dropCategory skipped ts)).Reads t rest ↔
      ∃ run, ts = run ++ t :: rest ∧ (∀ a ∈ run, a.category = skipped) ∧ t.category = c := by
  rw [accept_reads_iff]
  refine ⟨?_, ?_⟩
  · intro h
    obtain ⟨run, hts, hrun, -⟩ := exists_dropCategory skipped ts
    exact ⟨run, h.1 ▸ hts, hrun, h.2⟩
  · intro h
    obtain ⟨run, rfl, hrun, ht⟩ := h
    exact ⟨dropCategory_append hrun (by simpa [ht] using hne), ht⟩

/-! ## Cores -/

theorem determinedNoun_reads_iff {finish : Nat} {d : Token} {ts rest : List Token}
    {h : PhraseHead} :
    (determinedNoun finish d ts).Reads h rest ↔
      ∃ adjectives noun, ts = adjectives ++ noun :: rest ∧
        (∀ a ∈ adjectives, a.category = .adjective) ∧ noun.category = .noun ∧
        (d.number = .any ∨ d.number = noun.number.agreement) ∧
        h = .noun noun.number.agreement := by
  simp only [determinedNoun, Step.andThen_reads, Step.within_reads,
    accept_dropCategory_reads_iff (show Category.noun ≠ .adjective by decide)]
  refine ⟨?_, ?_⟩
  · intro hreads
    obtain ⟨noun, mid, -, ⟨adjectives, rfl, hadjectives, hnoun⟩, hh⟩ := hreads
    split at hh
    · next hagree =>
      obtain ⟨rfl, rfl⟩ := Step.done_reads.1 hh
      exact ⟨adjectives, noun, rfl, hadjectives, hnoun, hagree, rfl⟩
    · exact absurd hh Step.fail_reads
  · intro hderiv
    obtain ⟨adjectives, noun, rfl, hadjectives, hnoun, hagree, rfl⟩ := hderiv
    refine ⟨noun, rest, ⟨adjectives ++ [noun], by simp⟩, ⟨adjectives, rfl, hadjectives, hnoun⟩, ?_⟩
    rw [if_pos hagree]
    exact Step.done_reads.2 ⟨rfl, rfl⟩

/-- A core is read whatever follows it. -/
theorem Grammar.Core.reads {h : PhraseHead} {core : List Token} (hcore : Core h core)
    (finish : Nat) (rest : List Token) : (phraseHead finish (core ++ rest)).Reads h rest := by
  cases hcore with
  | pronoun ht => simp [phraseHead, ht]
  | bare ht hbare => simp [phraseHead, ht, Number.allowsBareNoun_iff.2 hbare]
  | @determined d noun adjectives hd hadjectives hnoun hagree =>
    simp only [List.cons_append, phraseHead, hd, Step.within_reads]
    exact determinedNoun_reads_iff.2
      ⟨adjectives, noun, by simp, hadjectives, hnoun, hagree, rfl⟩

theorem phraseHead_reads_iff {finish : Nat} {ts rest : List Token} {h : PhraseHead} :
    (phraseHead finish ts).Reads h rest ↔ ∃ core, ts = core ++ rest ∧ Core h core := by
  refine ⟨?_, ?_⟩
  · intro hr
    cases ts with
    | nil => simp [phraseHead] at hr
    | cons t ts =>
      rw [phraseHead] at hr
      split at hr
      · next ht =>
        obtain ⟨rfl, rfl⟩ := Step.done_reads.1 hr
        exact ⟨[t], rfl, .pronoun ht⟩
      · next ht =>
        obtain ⟨adjectives, noun, rfl, hadjectives, hnoun, hagree, rfl⟩ :=
          determinedNoun_reads_iff.1 (Step.within_reads.1 hr)
        exact ⟨t :: (adjectives ++ [noun]), by simp, .determined ht hadjectives hnoun hagree⟩
      · next ht =>
        rw [Step.within_reads] at hr
        split at hr
        · next hbare =>
          obtain ⟨rfl, rfl⟩ := Step.done_reads.1 hr
          exact ⟨[t], rfl, .bare ht (Number.allowsBareNoun_iff.1 hbare)⟩
        · exact absurd hr Step.fail_reads
      · exact absurd hr Step.fail_reads
  · intro hderiv
    obtain ⟨core, rfl, hcore⟩ := hderiv
    exact hcore.reads finish rest

/-! ## Noun phrases and modifiers, one step at a time -/

theorem nounPhrase_reads {finish : Nat} {ts rest : List Token} {n : Number} :
    (nounPhrase finish ts).Reads n rest ↔ (phraseHead finish ts).Reads (.pronoun n) rest ∨
      ∃ mid, (phraseHead finish ts).Reads (.noun n) mid ∧
        (modifiers finish mid).Reads () rest := by
  rw [nounPhrase, Step.andThen_reads]
  refine ⟨?_, ?_⟩
  · intro hreads
    obtain ⟨head, mid, hmid, hhead, hr⟩ := hreads
    cases head with
    | pronoun m =>
      obtain ⟨rfl, rfl⟩ := Step.done_reads.1 hr
      exact Or.inl hhead
    | noun m =>
      obtain ⟨_, hms, rfl⟩ := Step.map_reads.1 hr
      exact Or.inr ⟨mid, hhead, hms⟩
  · intro hcase
    rcases hcase with hhead | ⟨mid, hhead, hms⟩
    · exact ⟨_, rest, hhead.suffix, hhead, Step.done_reads.2 ⟨rfl, rfl⟩⟩
    · exact ⟨_, mid, hhead.suffix, hhead, Step.map_reads.2 ⟨(), hms, rfl⟩⟩

theorem nounPhrase_fails {finish : Nat} {ts rest : List Token} {e : SyntaxError} :
    (nounPhrase finish ts).Fails e rest ↔ (phraseHead finish ts).Fails e rest ∨
      ∃ n mid, (phraseHead finish ts).Reads (.noun n) mid ∧
        (modifiers finish mid).Fails e rest := by
  rw [nounPhrase, Step.andThen_fails]
  refine or_congr_right ⟨?_, ?_⟩
  · intro hfails
    obtain ⟨head, mid, hmid, hhead, hf⟩ := hfails
    cases head with
    | pronoun m => exact absurd hf Step.done_fails
    | noun m => exact ⟨m, mid, hhead, Step.map_fails.1 hf⟩
  · intro hfails
    obtain ⟨n, mid, hhead, hf⟩ := hfails
    exact ⟨_, mid, hhead.suffix, hhead, Step.map_fails.2 hf⟩

/-- Reads a noun phrase, and modifiers after it. -/
def modifiedPhrase (finish : Nat) (ts : List Token) : Step ts Unit :=
  (nounPhrase finish ts).andThen fun _ rest _ => modifiers finish rest

theorem modifiers_of_next_ne {finish : Nat} {ts : List Token}
    (h : nextCategory ts ≠ some .preposition) : modifiers finish ts = .done () := by
  cases ts with
  | nil => rw [modifiers]
  | cons t ts => rw [modifiers, if_neg (by simpa using h)]

theorem modifiers_cons {finish : Nat} {t : Token} {ts : List Token}
    (h : t.category = .preposition) :
    modifiers finish (t :: ts) = (modifiedPhrase finish ts).within (List.suffix_cons t ts) := by
  rw [modifiers, if_pos h]
  rfl

/-- Modifiers are read as long as there are any. -/
theorem modifiers_maximal {finish : Nat} {ts rest : List Token}
    (h : (modifiers finish ts).Reads () rest) : nextCategory rest ≠ some .preposition := by
  by_cases hnext : nextCategory ts = some .preposition
  · cases ts with
    | nil => simp at hnext
    | cons t us =>
      rw [modifiers_cons (by simpa using hnext), Step.within_reads] at h
      obtain ⟨_, mid, hmid, -, hms⟩ := Step.andThen_reads.1 h
      exact modifiers_maximal hms
  · rw [modifiers_of_next_ne hnext, Step.done_reads] at h
    exact h.2 ▸ hnext
termination_by ts.length
decreasing_by
  subst_vars
  exact Nat.lt_succ_of_le hmid.length_le

/-! ## Absorption -/

/-- Where modifiers of a noun are read, modifiers after the noun phrase are read as well. -/
theorem modifiedPhrase_same {finish : Nat} {ts mid : List Token} {n : Number}
    (h : (phraseHead finish ts).Reads (.noun n) mid) :
    (modifiedPhrase finish ts).Same (modifiers finish mid) := by
  rcases (modifiers finish mid).reads_or_fails with ⟨_, rest, hms⟩ | ⟨e, rest, hms⟩
  · have hphrase : (nounPhrase finish ts).Reads n rest := nounPhrase_reads.2 (Or.inr ⟨mid, h, hms⟩)
    refine (hphrase.andThen_same _).trans (Step.Reads.same (a := ()) ?_ hms)
    rw [modifiers_of_next_ne (modifiers_maximal hms)]
    exact Step.done_reads.2 ⟨rfl, rfl⟩
  · have hphrase : (nounPhrase finish ts).Fails e rest :=
      nounPhrase_fails.2 (Or.inr ⟨n, mid, h, hms⟩)
    exact Step.Fails.same (Step.andThen_fails.2 (Or.inl hphrase)) hms

mutual

/-- A noun phrase before modifiers takes from them no more than the modifiers would. -/
theorem absorb_nounPhrase (finish : Nat) (rest : List Token) {n : Number} {phrase : List Token} :
    NounPhrase n phrase → (modifiedPhrase finish (phrase ++ rest)).Same (modifiers finish rest)
  | .pronoun hcore => by
    have hphrase := nounPhrase_reads.2 (Or.inl (hcore.reads finish rest))
    exact hphrase.andThen_same fun _ rest _ => modifiers finish rest
  | @NounPhrase.noun _ core ms hcore hms => by
    rw [List.append_assoc]
    have hhead := hcore.reads finish (ms ++ rest)
    exact (modifiedPhrase_same hhead).trans (absorb_modifiers finish rest hms)

/-- Derivable modifiers change nothing for the modifiers after them. -/
theorem absorb_modifiers (finish : Nat) (rest : List Token) {ms : List Token} :
    Modifiers ms → (modifiers finish (ms ++ rest)).Same (modifiers finish rest)
  | .nil => ⟨rfl, rfl⟩
  | @Modifiers.cons p n phrase ms hp hphrase hms => by
    rw [List.cons_append, List.append_assoc, modifiers_cons hp]
    have habsorb := absorb_nounPhrase finish (ms ++ rest) hphrase
    exact Step.Same.trans habsorb (absorb_modifiers finish rest hms)

end

/-! ## What is read -/

/-- Given that modifiers are read rightly in what is left of a noun phrase, so is the phrase. -/
theorem exists_nounPhrase_of_modifiers {finish : Nat} {ts rest : List Token} {n : Number}
    (hms : ∀ mid, mid <:+ ts → (modifiers finish mid).Reads () rest →
      ∃ ms, mid = ms ++ rest ∧ Modifiers ms)
    (h : (nounPhrase finish ts).Reads n rest) :
    ∃ phrase, ts = phrase ++ rest ∧ NounPhrase n phrase := by
  rcases nounPhrase_reads.1 h with hhead | ⟨mid, hhead, hmid⟩
  · obtain ⟨core, rfl, hcore⟩ := phraseHead_reads_iff.1 hhead
    exact ⟨core, rfl, .pronoun hcore⟩
  · obtain ⟨ms, rfl, hderiv⟩ := hms mid hhead.suffix hmid
    obtain ⟨core, rfl, hcore⟩ := phraseHead_reads_iff.1 hhead
    exact ⟨core ++ ms, by simp, .noun hcore hderiv⟩

/-- What is read as modifiers is derivable as such. -/
theorem exists_modifiers_of_reads {finish : Nat} {ts rest : List Token}
    (h : (modifiers finish ts).Reads () rest) : ∃ ms, ts = ms ++ rest ∧ Modifiers ms := by
  -- Both the modifiers inside a noun phrase and those after it begin after a preposition.
  induction hlen : ts.length using Nat.strongRecOn generalizing ts rest with
  | ind k ih =>
    by_cases hnext : nextCategory ts = some .preposition
    · cases ts with
      | nil => simp at hnext
      | cons p us =>
        have hp : p.category = .preposition := by simpa using hnext
        rw [modifiers_cons hp, Step.within_reads] at h
        obtain ⟨n, mid, hmid, hphrase, hms⟩ := Step.andThen_reads.1 h
        have hshorter {vs : List Token} (hvs : vs <:+ us) : vs.length < k :=
          hlen ▸ Nat.lt_succ_of_le hvs.length_le
        obtain ⟨phrase, rfl, hderiv⟩ := exists_nounPhrase_of_modifiers
          (fun vs hvs hr => ih _ (hshorter hvs) hr rfl) hphrase
        obtain ⟨ms, rfl, hderiv'⟩ := ih _ (hshorter hmid) hms rfl
        exact ⟨p :: (phrase ++ ms), by simp, .cons hp hderiv hderiv'⟩
    · rw [modifiers_of_next_ne hnext, Step.done_reads] at h
      exact ⟨[], h.2, .nil⟩

/-- Modifiers are read exactly where they are derivable and no more of them follow. -/
theorem modifiers_reads_iff {finish : Nat} {ts rest : List Token} :
    (modifiers finish ts).Reads () rest ↔
      ∃ ms, ts = ms ++ rest ∧ Modifiers ms ∧ nextCategory rest ≠ some .preposition := by
  refine ⟨?_, ?_⟩
  · intro h
    obtain ⟨ms, hts, hms⟩ := exists_modifiers_of_reads h
    exact ⟨ms, hts, hms, modifiers_maximal h⟩
  · intro h
    obtain ⟨ms, rfl, hms, hrest⟩ := h
    rw [(absorb_modifiers finish rest hms).reads_iff, modifiers_of_next_ne hrest]
    exact Step.done_reads.2 ⟨rfl, rfl⟩

/-- Nothing in `rest` can still belong to the noun phrase before it. -/
def Grammar.Closed (phrase rest : List Token) : Prop :=
  (∃ n, Core (.pronoun n) phrase) ∨ nextCategory rest ≠ some .preposition

/-- A noun phrase is read exactly where it is derivable and cannot go on. -/
theorem nounPhrase_reads_iff {finish : Nat} {ts rest : List Token} {n : Number} :
    (nounPhrase finish ts).Reads n rest ↔
      ∃ phrase, ts = phrase ++ rest ∧ NounPhrase n phrase ∧ Closed phrase rest := by
  rw [nounPhrase_reads]
  refine ⟨?_, ?_⟩
  · intro hreads
    rcases hreads with hhead | ⟨mid, hhead, hms⟩
    · obtain ⟨core, rfl, hcore⟩ := phraseHead_reads_iff.1 hhead
      exact ⟨core, rfl, .pronoun hcore, Or.inl ⟨n, hcore⟩⟩
    · obtain ⟨core, rfl, hcore⟩ := phraseHead_reads_iff.1 hhead
      obtain ⟨ms, rfl, hderiv, hrest⟩ := modifiers_reads_iff.1 hms
      exact ⟨core ++ ms, by simp, .noun hcore hderiv, Or.inr hrest⟩
  · intro hderiv
    obtain ⟨phrase, rfl, hphrase, hclosed⟩ := hderiv
    cases hphrase with
    | pronoun hcore => exact Or.inl (hcore.reads finish rest)
    | @noun _ core ms hcore hms =>
      have hhead := hcore.reads finish (ms ++ rest)
      rw [List.append_assoc]
      rcases hclosed with ⟨m, hpronoun⟩ | hrest
      · have hhead' := hpronoun.reads finish rest
        rw [List.append_assoc] at hhead'
        exact absurd (hhead.eq hhead').1 (by simp)
      · exact Or.inr ⟨ms ++ rest, hhead, modifiers_reads_iff.2 ⟨ms, rfl, hms, hrest⟩⟩

/-! ## Complements -/

/-- Whether the next token can begin a noun phrase. -/
def startsPhrase (ts : List Token) : Bool := (nextCategory ts).any Category.startsNounPhrase

theorem complements_of_startsPhrase {finish : Nat} {ts : List Token}
    (h : startsPhrase ts = true) : complements finish ts = modifiedPhrase finish ts := by
  cases ts with
  | nil => simp [startsPhrase] at h
  | cons t ts =>
    rw [complements, if_pos (by simpa [startsPhrase] using h)]
    rfl

theorem complements_of_not_startsPhrase {finish : Nat} {ts : List Token}
    (h : startsPhrase ts = false) : complements finish ts = modifiers finish ts := by
  cases ts with
  | nil => rw [modifiers_of_next_ne (by simp), complements]
  | cons t ts => rw [complements, if_neg (by simpa [startsPhrase] using h)]

theorem Grammar.NounPhrase.startsPhrase_append {n : Number} {phrase : List Token}
    (hphrase : NounPhrase n phrase) (rest : List Token) :
    startsPhrase (phrase ++ rest) = true := by
  obtain ⟨t, us, rfl, ht⟩ := hphrase.exists_cons
  simpa [startsPhrase] using ht

/-- Complements take from what follows no more than modifiers would, if an object cannot begin
there. -/
theorem absorb_complements (finish : Nat) {cs rest : List Token} (hcs : Complements cs)
    (hobject : cs = [] → startsPhrase rest = false) :
    (complements finish (cs ++ rest)).Same (modifiers finish rest) := by
  cases hcs with
  | plain hms =>
    have hstart : startsPhrase (cs ++ rest) = false := by
      cases hms with
      | nil => exact hobject rfl
      | cons hp _ _ => simp [startsPhrase, hp, Category.startsNounPhrase]
    rw [complements_of_not_startsPhrase hstart]
    exact absorb_modifiers finish rest hms
  | @object _ phrase ms hphrase hms =>
    rw [List.append_assoc, complements_of_startsPhrase (hphrase.startsPhrase_append _)]
    exact (absorb_nounPhrase finish (ms ++ rest) hphrase).trans (absorb_modifiers finish rest hms)

theorem complements_reads_iff {finish : Nat} {ts rest : List Token} :
    (complements finish ts).Reads () rest ↔
      ∃ cs, ts = cs ++ rest ∧ Complements cs ∧ nextCategory rest ≠ some .preposition ∧
        (cs = [] → startsPhrase rest = false) := by
  refine ⟨?_, ?_⟩
  · intro h
    cases hstart : startsPhrase ts with
    | true =>
      rw [complements_of_startsPhrase hstart] at h
      obtain ⟨n, mid, -, hphrase, hms⟩ := Step.andThen_reads.1 h
      obtain ⟨phrase, rfl, hderiv, -⟩ := nounPhrase_reads_iff.1 hphrase
      obtain ⟨ms, rfl, hderiv', hrest⟩ := modifiers_reads_iff.1 hms
      obtain ⟨t, us, rfl, -⟩ := hderiv.exists_cons
      exact ⟨t :: us ++ ms, by simp, .object hderiv hderiv', hrest, by simp⟩
    | false =>
      rw [complements_of_not_startsPhrase hstart] at h
      obtain ⟨ms, rfl, hderiv, hrest⟩ := modifiers_reads_iff.1 h
      refine ⟨ms, rfl, .plain hderiv, hrest, ?_⟩
      intro hnil
      rwa [hnil, List.nil_append] at hstart
  · intro h
    obtain ⟨cs, rfl, hcs, hrest, hobject⟩ := h
    rw [(absorb_complements finish hcs hobject).reads_iff, modifiers_of_next_ne hrest]
    exact Step.done_reads.2 ⟨rfl, rfl⟩

/-! ## Sentences -/

/-- A noun phrase is closed by auxiliaries and a verb. -/
theorem closed_of_auxiliaries {phrase auxiliaries rest : List Token} {verb : Token}
    (hauxiliaries : ∀ a ∈ auxiliaries, a.category = .auxiliary) (hverb : verb.category = .verb) :
    Closed phrase (auxiliaries ++ verb :: rest) := by
  refine Or.inr ?_
  cases auxiliaries with
  | nil => simp [hverb]
  | cons a as => simp [hauxiliaries a]

/-- After the verb of its subject a verb phrase is read as far as its complements are. -/
theorem verbPhrase_same_complements (finish : Nat) {verb : Token} {auxiliaries : List Token}
    (hauxiliaries : ∀ a ∈ auxiliaries, a.category = .auxiliary) (hverb : verb.category = .verb)
    (rest : List Token) :
    (verbPhrase finish verb.number (auxiliaries ++ verb :: rest)).Same
      (complements finish rest) := by
  have haccept : ((accept finish .verb
      (dropCategory .auxiliary (auxiliaries ++ verb :: rest))).within
        (dropCategory_suffix .auxiliary _)).Reads verb rest :=
    (accept_dropCategory_reads_iff (by decide)).2 ⟨auxiliaries, rfl, hauxiliaries, hverb⟩
  have hsame := haccept.andThen_same fun v rest _ =>
    if v.number ≠ verb.number then
      .fail (.subjectVerbAgreement verb.number v.word v.number v.position)
    else complements finish rest
  rwa [if_neg (by simp)] at hsame

/-- After its subject and the verb a sentence is read as far as its complements are. -/
theorem sentence_same_complements (finish : Nat) {n : Number} {opening : List Token}
    (ho : Opening n opening) (rest : List Token) :
    (sentence finish (opening ++ rest)).Same ((complements finish rest).map fun _ => n) := by
  cases ho with
  | @intro subject auxiliaries verb hsubject hauxiliaries hverb hnumber =>
    subst hnumber
    have hts : subject ++ (auxiliaries ++ [verb]) ++ rest =
        subject ++ (auxiliaries ++ verb :: rest) := by simp
    have hclosed : Closed subject (auxiliaries ++ verb :: rest) :=
      closed_of_auxiliaries hauxiliaries hverb
    have hphrase : (nounPhrase finish (subject ++ (auxiliaries ++ verb :: rest))).Reads verb.number
        (auxiliaries ++ verb :: rest) :=
      nounPhrase_reads_iff.2 ⟨subject, rfl, hsubject, hclosed⟩
    rw [hts]
    refine (hphrase.andThen_same _).trans ?_
    exact (verbPhrase_same_complements finish hauxiliaries hverb rest).map _

/-- What is read as a sentence begins with an opening, after which complements are read. -/
theorem exists_opening_of_reads {finish : Nat} {ts rest : List Token} {n : Number}
    (h : (sentence finish ts).Reads n rest) :
    ∃ opening mid, ts = opening ++ mid ∧ Opening n opening ∧
      (complements finish mid).Reads () rest := by
  obtain ⟨m, mid, -, hphrase, hmap⟩ := Step.andThen_reads.1 h
  obtain ⟨_, hverbPhrase, rfl⟩ := Step.map_reads.1 hmap
  rw [verbPhrase, Step.andThen_reads] at hverbPhrase
  obtain ⟨verb, left, -, haccept, hcomplements⟩ := hverbPhrase
  rw [Step.within_reads, accept_dropCategory_reads_iff (by decide)] at haccept
  obtain ⟨subject, rfl, hsubject, -⟩ := nounPhrase_reads_iff.1 hphrase
  obtain ⟨auxiliaries, rfl, hauxiliaries, hverb⟩ := haccept
  split at hcomplements
  · exact absurd hcomplements Step.fail_reads
  · next hnumber =>
    refine ⟨subject ++ (auxiliaries ++ [verb]), left, by simp, ?_, hcomplements⟩
    exact .intro hsubject hauxiliaries hverb (by simpa using hnumber)

/-- A sentence is read exactly where it is derivable and cannot go on. -/
theorem sentence_reads_iff {finish : Nat} {ts rest : List Token} {n : Number} :
    (sentence finish ts).Reads n rest ↔
      ∃ opening cs, ts = opening ++ (cs ++ rest) ∧ Opening n opening ∧ Complements cs ∧
        nextCategory rest ≠ some .preposition ∧ (cs = [] → startsPhrase rest = false) := by
  refine ⟨?_, ?_⟩
  · intro h
    obtain ⟨opening, mid, rfl, ho, hcomplements⟩ := exists_opening_of_reads h
    obtain ⟨cs, rfl, hcs, hrest, hobject⟩ := complements_reads_iff.1 hcomplements
    exact ⟨opening, cs, rfl, ho, hcs, hrest, hobject⟩
  · intro h
    obtain ⟨opening, cs, rfl, ho, hcs, hrest, hobject⟩ := h
    rw [(sentence_same_complements finish ho (cs ++ rest)).reads_iff, Step.map_reads]
    exact ⟨(), complements_reads_iff.2 ⟨cs, rfl, hcs, hrest, hobject⟩, rfl⟩

end Concord
