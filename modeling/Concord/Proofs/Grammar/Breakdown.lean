import Concord.Proofs.Grammar.Recognition

/-!
# Where productions break off

Beside the grammar stands the grammar of its errors. A *break* is made of the tokens that were read
rightly, the token that comes next (none at the end of the input) and the error reported for it. The
breaks of a sentence are those of a core, wherever the sentence asks for one, and those of its verb.

A break knows no token after the next one, and nothing of how the tokens before it were grouped.
Both are possible because noun phrases and modifiers are absorbed (`absorb_nounPhrase`).

Main statements: `phraseHead_fails_iff`, `modifiers_fails_iff`, `complements_fails_iff` and
`sentence_fails_iff`, each production fails exactly at the breaks of its phrase.
-/

namespace Concord

open Grammar

/-- What a failing production leaves unread, given the tokens from the next one on: an agreement is
checked after its second word has been read, every other error leaves the next token unread. -/
def SyntaxError.unread (e : SyntaxError) (left : List Token) : List Token :=
  match e with
  | determinerAgreement .. | bareSingularNoun .. | subjectVerbAgreement .. => left.tail
  | _ => left

namespace Grammar

/-! ## Breaks -/

/-- Another token than one of category `c` comes next. -/
inductive Missed (finish : Nat) (c : Category) : Option Token → SyntaxError → Prop
  | atEnd : Missed finish c none (.unexpectedEnd c finish)
  | found {t : Token} : t.category ≠ c →
      Missed finish c (some t) (.unexpectedToken c t.category t.word t.position)

/-- How a noun phrase breaks off before its noun or pronoun is read. -/
inductive CoreBreak (finish : Nat) : List Token → Option Token → SyntaxError → Prop
  | missing : CoreBreak finish [] none (.missingNounPhrase finish)
  | badStart {t : Token} : t.category.startsNounPhrase = false →
      CoreBreak finish [] (some t) (.invalidNounPhraseStart t.category t.word t.position)
  | bareNoun {t : Token} : t.category = .noun → t.number.allowsBareNoun = false →
      CoreBreak finish [] (some t) (.bareSingularNoun t.word t.position)
  | noNoun {d : Token} {adjectives : List Token} {next : Option Token} {e : SyntaxError} :
      d.category = .determiner → (∀ a ∈ adjectives, a.category = .adjective) →
      next.map Token.category ≠ some .adjective → Missed finish .noun next e →
      CoreBreak finish (d :: adjectives) next e
  | disagreement {d noun : Token} {adjectives : List Token} :
      d.category = .determiner → (∀ a ∈ adjectives, a.category = .adjective) →
      noun.category = .noun → ¬ (d.number = .any ∨ d.number = noun.number.agreement) →
      CoreBreak finish (d :: adjectives) (some noun)
        (.determinerAgreement d.word d.number noun.word noun.number noun.position)

/-- How modifiers break off: in a core after one of their prepositions. -/
inductive ModifiersBreak (finish : Nat) : List Token → Option Token → SyntaxError → Prop
  | intro {ms core : List Token} {p : Token} {next : Option Token} {e : SyntaxError} :
      Modifiers ms → p.category = .preposition → CoreBreak finish core next e →
      ModifiersBreak finish (ms ++ p :: core) next e

/-- How complements break off: in the core of an object, or in their modifiers. -/
inductive ComplementsBreak (finish : Nat) : List Token → Option Token → SyntaxError → Prop
  | object {core : List Token} {next : Option Token} {e : SyntaxError} :
      startsPhrase (core ++ next.toList) = true → CoreBreak finish core next e →
      ComplementsBreak finish core next e
  | modifier {cs core : List Token} {p : Token} {next : Option Token} {e : SyntaxError} :
      Complements cs → p.category = .preposition → CoreBreak finish core next e →
      ComplementsBreak finish (cs ++ p :: core) next e

/-- How a sentence breaks off. -/
inductive SentenceBreak (finish : Nat) : List Token → Option Token → SyntaxError → Prop
  | subject {core : List Token} {next : Option Token} {e : SyntaxError} :
      CoreBreak finish core next e → SentenceBreak finish core next e
  | subjectModifier {n : Number} {core ms : List Token} {next : Option Token} {e : SyntaxError} :
      Core (.noun n) core → ModifiersBreak finish ms next e →
      SentenceBreak finish (core ++ ms) next e
  | noVerb {n : Number} {subject auxiliaries : List Token} {next : Option Token}
      {e : SyntaxError} :
      NounPhrase n subject → (∀ a ∈ auxiliaries, a.category = .auxiliary) →
      (auxiliaries = [] → Closed subject next.toList) →
      next.map Token.category ≠ some .auxiliary → Missed finish .verb next e →
      SentenceBreak finish (subject ++ auxiliaries) next e
  | disagreement {n : Number} {subject auxiliaries : List Token} {verb : Token} :
      NounPhrase n subject → (∀ a ∈ auxiliaries, a.category = .auxiliary) →
      verb.category = .verb → verb.number ≠ n →
      SentenceBreak finish (subject ++ auxiliaries) (some verb)
        (.subjectVerbAgreement n verb.word verb.number verb.position)
  | complements {n : Number} {opening cs : List Token} {next : Option Token} {e : SyntaxError} :
      Opening n opening → ComplementsBreak finish cs next e →
      SentenceBreak finish (opening ++ cs) next e

/-- Some tokens break off: they divide into those read and those left, between which there is a
break with error `e`, and `rest` remains unread. -/
def BreaksAt (broken : List Token → Option Token → SyntaxError → Prop) (ts : List Token)
    (e : SyntaxError) (rest : List Token) : Prop :=
  ∃ read left, ts = read ++ left ∧ broken read left.head? e ∧ rest = e.unread left

theorem BreaksAt.append {broken broken' : List Token → Option Token → SyntaxError → Prop}
    {ts rest : List Token} {e : SyntaxError} (before : List Token) (h : BreaksAt broken ts e rest)
    (hbefore : ∀ read next, broken read next e → broken' (before ++ read) next e) :
    BreaksAt broken' (before ++ ts) e rest := by
  obtain ⟨read, left, rfl, hbreak, hrest⟩ := h
  exact ⟨before ++ read, left, by simp, hbefore read _ hbreak, hrest⟩

theorem BreaksAt.imp {broken broken' : List Token → Option Token → SyntaxError → Prop}
    {ts rest : List Token} {e : SyntaxError} (h : BreaksAt broken ts e rest)
    (himp : ∀ read next, broken read next e → broken' read next e) :
    BreaksAt broken' ts e rest := by
  obtain ⟨read, left, hts, hbreak, hrest⟩ := h
  exact ⟨read, left, hts, himp read _ hbreak, hrest⟩

theorem Missed.unread_eq {finish : Nat} {c : Category} {next : Option Token} {e : SyntaxError}
    (h : Missed finish c next e) (left : List Token) : e.unread left = left := by
  cases h <;> rfl

end Grammar

/-! ## Cores -/

theorem accept_fails_iff {finish : Nat} {c : Category} {ts rest : List Token} {e : SyntaxError} :
    (accept finish c ts).Fails e rest ↔ Missed finish c ts.head? e ∧ rest = ts := by
  cases ts with
  | nil =>
    rw [accept, Step.fail_fails]
    refine ⟨fun h => ?_, fun h => ?_⟩
    · obtain ⟨rfl, rfl⟩ := h
      exact ⟨.atEnd, rfl⟩
    · obtain ⟨hmissed, rfl⟩ := h
      cases hmissed
      exact ⟨rfl, rfl⟩
  | cons t ts =>
    rw [accept]
    split
    · next ht =>
      refine ⟨fun h => by simp [Step.Fails] at h, fun h => ?_⟩
      cases h.1 with
      | found hne => exact absurd ht hne
    · next ht =>
      rw [Step.fail_fails]
      refine ⟨fun h => ?_, fun h => ?_⟩
      · obtain ⟨rfl, rfl⟩ := h
        exact ⟨.found ht, rfl⟩
      · obtain ⟨hmissed, rfl⟩ := h
        cases hmissed
        exact ⟨rfl, rfl⟩

/-- Missing a token after some that may be passed over. -/
theorem accept_dropCategory_fails_iff {finish : Nat} {skipped c : Category} {ts rest : List Token}
    {e : SyntaxError} :
    (accept finish c (dropCategory skipped ts)).Fails e rest ↔
      ∃ run, ts = run ++ rest ∧ (∀ a ∈ run, a.category = skipped) ∧
        nextCategory rest ≠ some skipped ∧ Missed finish c rest.head? e := by
  rw [accept_fails_iff]
  refine ⟨fun h => ?_, fun h => ?_⟩
  · obtain ⟨hmissed, rfl⟩ := h
    obtain ⟨run, hts, hrun, hnext⟩ := exists_dropCategory skipped ts
    exact ⟨run, hts, hrun, hnext, hmissed⟩
  · obtain ⟨run, rfl, hrun, hnext, hmissed⟩ := h
    rw [dropCategory_append hrun hnext]
    exact ⟨hmissed, rfl⟩

theorem determinedNoun_fails_iff {finish : Nat} {d : Token} {ts rest : List Token}
    {e : SyntaxError} :
    (determinedNoun finish d ts).Fails e rest ↔
      (∃ adjectives, ts = adjectives ++ rest ∧ (∀ a ∈ adjectives, a.category = .adjective) ∧
        nextCategory rest ≠ some .adjective ∧ Missed finish .noun rest.head? e) ∨
      ∃ adjectives noun, ts = adjectives ++ noun :: rest ∧
        (∀ a ∈ adjectives, a.category = .adjective) ∧ noun.category = .noun ∧
        ¬ (d.number = .any ∨ d.number = noun.number.agreement) ∧
        e = .determinerAgreement d.word d.number noun.word noun.number noun.position := by
  rw [determinedNoun, Step.andThen_fails]
  simp only [Step.within_fails, Step.within_reads, accept_dropCategory_fails_iff,
    accept_dropCategory_reads_iff (show Category.noun ≠ .adjective by decide)]
  refine or_congr_right ⟨fun h => ?_, fun h => ?_⟩
  · obtain ⟨noun, mid, -, ⟨adjectives, rfl, hadjectives, hnoun⟩, hfails⟩ := h
    split at hfails
    · exact absurd hfails Step.done_fails
    · next hdisagree =>
      obtain ⟨rfl, rfl⟩ := Step.fail_fails.1 hfails
      exact ⟨adjectives, noun, rfl, hadjectives, hnoun, hdisagree, rfl⟩
  · obtain ⟨adjectives, noun, rfl, hadjectives, hnoun, hdisagree, rfl⟩ := h
    have hmid : rest <:+ adjectives ++ noun :: rest := ⟨adjectives ++ [noun], by simp⟩
    refine ⟨noun, rest, hmid, ⟨adjectives, rfl, hadjectives, hnoun⟩, ?_⟩
    rw [if_neg hdisagree]
    exact Step.fail_fails.2 ⟨rfl, rfl⟩

/-- A broken core is refused, whatever follows the next token. -/
theorem Grammar.CoreBreak.fails {finish : Nat} {read left : List Token} {e : SyntaxError}
    (h : CoreBreak finish read left.head? e) :
    (phraseHead finish (read ++ left)).Fails e (e.unread left) := by
  generalize hnext : left.head? = next at h
  cases h with
  | missing =>
    obtain rfl : left = [] := List.head?_eq_none_iff.1 hnext
    exact Step.fail_fails.2 ⟨rfl, rfl⟩
  | @badStart t ht =>
    obtain ⟨us, rfl⟩ := List.head?_eq_some_iff.1 hnext
    cases hc : t.category <;> simp [hc, Category.startsNounPhrase] at ht <;>
      simp [phraseHead, hc, SyntaxError.unread]
  | @bareNoun t ht hbare =>
    obtain ⟨us, rfl⟩ := List.head?_eq_some_iff.1 hnext
    simp [phraseHead, ht, hbare, SyntaxError.unread]
  | @noNoun d adjectives _ _ hd hadjectives hne hmissed =>
    subst hnext
    rw [List.cons_append, phraseHead]
    simp only [hd, Step.within_fails, determinedNoun_fails_iff]
    rw [hmissed.unread_eq]
    exact Or.inl ⟨adjectives, rfl, hadjectives, hne, hmissed⟩
  | @disagreement d noun adjectives hd hadjectives hnoun hdisagree =>
    obtain ⟨us, rfl⟩ := List.head?_eq_some_iff.1 hnext
    rw [List.cons_append, phraseHead]
    simp only [hd, Step.within_fails, determinedNoun_fails_iff]
    exact Or.inr ⟨adjectives, noun, rfl, hadjectives, hnoun, hdisagree, rfl⟩

theorem phraseHead_fails_iff {finish : Nat} {ts rest : List Token} {e : SyntaxError} :
    (phraseHead finish ts).Fails e rest ↔ BreaksAt (CoreBreak finish) ts e rest := by
  refine ⟨fun h => ?_, fun h => ?_⟩
  · cases ts with
    | nil =>
      obtain ⟨rfl, rfl⟩ := Step.fail_fails.1 h
      exact ⟨[], [], rfl, .missing, rfl⟩
    | cons t ts =>
      rw [phraseHead] at h
      split at h
      · exact absurd h Step.done_fails
      · next ht =>
        rcases determinedNoun_fails_iff.1 (Step.within_fails.1 h) with
          ⟨adjectives, rfl, hadjectives, hnext, hmissed⟩ |
          ⟨adjectives, noun, rfl, hadjectives, hnoun, hdisagree, rfl⟩
        · exact ⟨t :: adjectives, rest, rfl, .noNoun ht hadjectives hnext hmissed,
            (hmissed.unread_eq rest).symm⟩
        · exact ⟨t :: adjectives, noun :: rest, rfl,
            .disagreement ht hadjectives hnoun hdisagree, rfl⟩
      · next ht =>
        rw [Step.within_fails] at h
        split at h
        · exact absurd h Step.done_fails
        · next hbare =>
          obtain ⟨rfl, rfl⟩ := Step.fail_fails.1 h
          exact ⟨[], t :: ts, rfl, .bareNoun ht (by simpa using hbare), rfl⟩
      · next hpronoun hdeterminer hnoun =>
        obtain ⟨rfl, rfl⟩ := Step.fail_fails.1 h
        refine ⟨[], t :: ts, rfl, .badStart ?_, rfl⟩
        cases hc : t.category <;> simp_all [Category.startsNounPhrase]
  · obtain ⟨read, left, rfl, hbreak, rfl⟩ := h
    exact hbreak.fails

/-! ## Noun phrases and modifiers -/

/-- Reading a noun phrase and modifiers fails in the first core, or in modifiers somewhere after a
noun phrase. -/
theorem modifiedPhrase_fails_iff {finish : Nat} {ts rest : List Token} {e : SyntaxError} :
    (modifiedPhrase finish ts).Fails e rest ↔ BreaksAt (CoreBreak finish) ts e rest ∨
      ∃ n phrase mid, ts = phrase ++ mid ∧ NounPhrase n phrase ∧
        (modifiers finish mid).Fails e rest := by
  refine ⟨fun h => ?_, fun h => ?_⟩
  · rcases Step.andThen_fails.1 h with hphrase | ⟨n, mid, -, hphrase, hms⟩
    · rcases nounPhrase_fails.1 hphrase with hhead | ⟨n, mid, hhead, hms⟩
      · exact Or.inl (phraseHead_fails_iff.1 hhead)
      · obtain ⟨core, rfl, hcore⟩ := phraseHead_reads_iff.1 hhead
        have hphrase : NounPhrase n core := by simpa using NounPhrase.noun hcore .nil
        exact Or.inr ⟨n, core, mid, rfl, hphrase, hms⟩
    · obtain ⟨phrase, rfl, hderiv, -⟩ := nounPhrase_reads_iff.1 hphrase
      exact Or.inr ⟨n, phrase, mid, rfl, hderiv, hms⟩
  · rcases h with hbreak | ⟨n, phrase, mid, rfl, hphrase, hms⟩
    · have hphrase := nounPhrase_fails.2 (Or.inl (phraseHead_fails_iff.2 hbreak))
      exact Step.andThen_fails.2 (Or.inl hphrase)
    · exact (absorb_nounPhrase finish mid hphrase).fails_iff.2 hms

/-- Modifiers fail exactly at their breaks. -/
theorem modifiers_fails_iff {finish : Nat} {ts rest : List Token} {e : SyntaxError} :
    (modifiers finish ts).Fails e rest ↔ BreaksAt (ModifiersBreak finish) ts e rest := by
  refine ⟨fun h => ?_, fun h => ?_⟩
  · induction hlen : ts.length using Nat.strongRecOn generalizing ts with
    | ind k ih =>
      by_cases hnext : nextCategory ts = some .preposition
      · cases ts with
        | nil => simp at hnext
        | cons p us =>
          have hp : p.category = .preposition := by simpa using hnext
          rw [modifiers_cons hp, Step.within_fails, modifiedPhrase_fails_iff] at h
          rcases h with hbreak | ⟨n, phrase, mid, rfl, hphrase, hms⟩
          · exact hbreak.append [p] fun core next hcore => .intro .nil hp hcore
          · have hshorter : mid.length < k := by
              simp only [List.length_cons, List.length_append] at hlen
              omega
            refine (ih _ hshorter hms rfl).append (p :: phrase) fun read next hread => ?_
            cases hread with
            | @intro ms core q _ _ hms hq hcore =>
              have hmore := ModifiersBreak.intro (.cons hp hphrase hms) hq hcore
              simpa using hmore
      · rw [modifiers_of_next_ne hnext] at h
        exact absurd h Step.done_fails
  · obtain ⟨read, left, rfl, hread, rfl⟩ := h
    generalize hnext : left.head? = next at hread
    cases hread with
    | @intro ms core p _ _ hms hp hcore =>
      subst hnext
      rw [List.append_assoc, (absorb_modifiers finish _ hms).fails_iff, List.cons_append,
        modifiers_cons hp, Step.within_fails, modifiedPhrase_fails_iff]
      exact Or.inl ⟨core, left, rfl, hcore, rfl⟩

/-! ## Complements -/

/-- The next token is all that counts of those left for what comes first. -/
theorem head?_append_head? (read left : List Token) :
    (read ++ left.head?.toList).head? = (read ++ left).head? := by
  cases read <;> cases left <;> rfl

theorem startsPhrase_append_head? (read left : List Token) :
    startsPhrase (read ++ left.head?.toList) = startsPhrase (read ++ left) := by
  unfold startsPhrase nextCategory
  rw [head?_append_head?]

theorem complements_fails_iff {finish : Nat} {ts rest : List Token} {e : SyntaxError} :
    (complements finish ts).Fails e rest ↔ BreaksAt (ComplementsBreak finish) ts e rest := by
  refine ⟨fun h => ?_, fun h => ?_⟩
  · cases hstart : startsPhrase ts with
    | true =>
      rw [complements_of_startsPhrase hstart, modifiedPhrase_fails_iff] at h
      rcases h with ⟨core, left, rfl, hcore, hrest⟩ | ⟨n, phrase, mid, rfl, hphrase, hms⟩
      · rw [← startsPhrase_append_head?] at hstart
        exact ⟨core, left, rfl, .object hstart hcore, hrest⟩
      · refine (modifiers_fails_iff.1 hms).append phrase fun read next hread => ?_
        cases hread with
        | intro hms hp hcore =>
          have hmore := ComplementsBreak.modifier (.object hphrase hms) hp hcore
          simpa using hmore
    | false =>
      rw [complements_of_not_startsPhrase hstart, modifiers_fails_iff] at h
      refine h.imp fun read next hread => ?_
      cases hread with
      | intro hms hp hcore => exact .modifier (.plain hms) hp hcore
  · obtain ⟨read, left, rfl, hread, rfl⟩ := h
    generalize hnext : left.head? = next at hread
    cases hread with
    | object hstart hcore =>
      subst hnext
      rw [startsPhrase_append_head?] at hstart
      rw [complements_of_startsPhrase hstart, modifiedPhrase_fails_iff]
      exact Or.inl ⟨read, left, rfl, hcore, rfl⟩
    | @modifier cs core p _ _ hcs hp hcore =>
      subst hnext
      have hobject : cs = [] → startsPhrase (p :: core ++ left) = false := fun _ => by
        simp [startsPhrase, hp, Category.startsNounPhrase]
      rw [List.append_assoc, (absorb_complements finish hcs hobject).fails_iff,
        modifiers_fails_iff]
      exact ⟨p :: core, left, rfl, .intro .nil hp hcore, rfl⟩

/-! ## Sentences -/

theorem verbPhrase_fails_iff {finish : Nat} {n : Number} {ts rest : List Token}
    {e : SyntaxError} :
    (verbPhrase finish n ts).Fails e rest ↔
      (∃ auxiliaries, ts = auxiliaries ++ rest ∧ (∀ a ∈ auxiliaries, a.category = .auxiliary) ∧
        nextCategory rest ≠ some .auxiliary ∧ Missed finish .verb rest.head? e) ∨
      ∃ auxiliaries verb mid, ts = auxiliaries ++ verb :: mid ∧
        (∀ a ∈ auxiliaries, a.category = .auxiliary) ∧ verb.category = .verb ∧
        ((verb.number ≠ n ∧ mid = rest ∧
            e = .subjectVerbAgreement n verb.word verb.number verb.position) ∨
          (verb.number = n ∧ (complements finish mid).Fails e rest)) := by
  rw [verbPhrase, Step.andThen_fails]
  simp only [Step.within_fails, Step.within_reads, accept_dropCategory_fails_iff,
    accept_dropCategory_reads_iff (show Category.verb ≠ .auxiliary by decide)]
  refine or_congr_right ⟨fun h => ?_, fun h => ?_⟩
  · obtain ⟨verb, mid, -, ⟨auxiliaries, rfl, hauxiliaries, hverb⟩, hfails⟩ := h
    refine ⟨auxiliaries, verb, mid, rfl, hauxiliaries, hverb, ?_⟩
    split at hfails
    · next hne =>
      obtain ⟨rfl, rfl⟩ := Step.fail_fails.1 hfails
      exact Or.inl ⟨hne, rfl, rfl⟩
    · next heq => exact Or.inr ⟨by simpa using heq, hfails⟩
  · obtain ⟨auxiliaries, verb, mid, rfl, hauxiliaries, hverb, hcase⟩ := h
    have hmid : mid <:+ auxiliaries ++ verb :: mid := ⟨auxiliaries ++ [verb], by simp⟩
    refine ⟨verb, mid, hmid, ⟨auxiliaries, rfl, hauxiliaries, hverb⟩, ?_⟩
    rcases hcase with ⟨hne, rfl, rfl⟩ | ⟨heq, hfails⟩
    · rw [if_pos hne]
      exact Step.fail_fails.2 ⟨rfl, rfl⟩
    · rw [if_neg (by simpa using heq)]
      exact hfails

theorem sentence_fails {finish : Nat} {ts rest : List Token} {e : SyntaxError} :
    (sentence finish ts).Fails e rest ↔ (nounPhrase finish ts).Fails e rest ∨
      ∃ n mid, (nounPhrase finish ts).Reads n mid ∧ (verbPhrase finish n mid).Fails e rest := by
  rw [sentence, Step.andThen_fails]
  refine or_congr_right ⟨fun h => ?_, fun h => ?_⟩
  · obtain ⟨n, mid, -, hphrase, hfails⟩ := h
    exact ⟨n, mid, hphrase, Step.map_fails.1 hfails⟩
  · obtain ⟨n, mid, hphrase, hfails⟩ := h
    exact ⟨n, mid, hphrase.suffix, hphrase, Step.map_fails.2 hfails⟩

theorem closed_head?_iff {phrase left : List Token} :
    Closed phrase left.head?.toList ↔ Closed phrase left := by
  cases left <;> rfl

theorem sentenceBreak_of_fails {finish : Nat} {ts rest : List Token} {e : SyntaxError}
    (h : (sentence finish ts).Fails e rest) : BreaksAt (SentenceBreak finish) ts e rest := by
  rcases sentence_fails.1 h with hphrase | ⟨n, mid, hphrase, hfails⟩
  · rcases nounPhrase_fails.1 hphrase with hhead | ⟨n, mid, hhead, hms⟩
    · exact (phraseHead_fails_iff.1 hhead).imp fun _ _ => .subject
    · obtain ⟨core, rfl, hcore⟩ := phraseHead_reads_iff.1 hhead
      exact (modifiers_fails_iff.1 hms).append core fun _ _ => .subjectModifier hcore
  · obtain ⟨subject, rfl, hsubject, hclosed⟩ := nounPhrase_reads_iff.1 hphrase
    rcases verbPhrase_fails_iff.1 hfails with
      ⟨auxiliaries, rfl, hauxiliaries, hnext, hmissed⟩ |
      ⟨auxiliaries, verb, mid, rfl, hauxiliaries, hverb, hcase⟩
    · refine ⟨subject ++ auxiliaries, rest, by simp, ?_, (hmissed.unread_eq rest).symm⟩
      refine .noVerb hsubject hauxiliaries (fun hnil => ?_) hnext hmissed
      rw [closed_head?_iff]
      simpa [hnil] using hclosed
    · rcases hcase with ⟨hne, rfl, rfl⟩ | ⟨heq, hcomplements⟩
      · exact ⟨subject ++ auxiliaries, verb :: mid, by simp,
          .disagreement hsubject hauxiliaries hverb hne, rfl⟩
      · have hts : subject ++ (auxiliaries ++ verb :: mid) =
            subject ++ (auxiliaries ++ [verb]) ++ mid := by simp
        have ho : Opening n (subject ++ (auxiliaries ++ [verb])) :=
          .intro hsubject hauxiliaries hverb heq
        rw [hts]
        exact (complements_fails_iff.1 hcomplements).append _ fun _ _ => .complements ho

/-- A broken sentence is refused, whatever follows the next token. -/
theorem Grammar.SentenceBreak.fails {finish : Nat} {read left : List Token} {e : SyntaxError}
    (h : SentenceBreak finish read left.head? e) :
    (sentence finish (read ++ left)).Fails e (e.unread left) := by
  generalize hnext : left.head? = next at h
  cases h with
  | subject hcore =>
    subst hnext
    exact sentence_fails.2 (Or.inl (nounPhrase_fails.2 (Or.inl hcore.fails)))
  | @subjectModifier n core ms _ _ hcore hms =>
    subst hnext
    have hfails := modifiers_fails_iff.2 ⟨ms, left, rfl, hms, rfl⟩
    have hhead := hcore.reads finish (ms ++ left)
    rw [List.append_assoc]
    exact sentence_fails.2 (Or.inl (nounPhrase_fails.2 (Or.inr ⟨n, _, hhead, hfails⟩)))
  | @noVerb n subject auxiliaries _ _ hsubject hauxiliaries hclosed hne hmissed =>
    subst hnext
    have hclosed' : Closed subject (auxiliaries ++ left) := by
      cases auxiliaries with
      | nil => exact closed_head?_iff.1 (hclosed rfl)
      | cons a as => exact Or.inr (by simp [hauxiliaries a])
    have hphrase : (nounPhrase finish (subject ++ (auxiliaries ++ left))).Reads n
        (auxiliaries ++ left) := nounPhrase_reads_iff.2 ⟨subject, rfl, hsubject, hclosed'⟩
    rw [List.append_assoc, hmissed.unread_eq]
    refine sentence_fails.2 (Or.inr ⟨n, _, hphrase, verbPhrase_fails_iff.2 (Or.inl ?_)⟩)
    exact ⟨auxiliaries, rfl, hauxiliaries, hne, hmissed⟩
  | @disagreement n subject auxiliaries verb hsubject hauxiliaries hverb hne =>
    obtain ⟨mid, rfl⟩ := List.head?_eq_some_iff.1 hnext
    have hclosed : Closed subject (auxiliaries ++ verb :: mid) :=
      closed_of_auxiliaries hauxiliaries hverb
    have hphrase : (nounPhrase finish (subject ++ (auxiliaries ++ verb :: mid))).Reads n
        (auxiliaries ++ verb :: mid) :=
      nounPhrase_reads_iff.2 ⟨subject, rfl, hsubject, hclosed⟩
    rw [List.append_assoc]
    refine sentence_fails.2 (Or.inr ⟨n, _, hphrase, verbPhrase_fails_iff.2 (Or.inr ?_)⟩)
    exact ⟨auxiliaries, verb, mid, rfl, hauxiliaries, hverb, Or.inl ⟨hne, rfl, rfl⟩⟩
  | @complements n opening cs _ _ ho hcs =>
    subst hnext
    rw [List.append_assoc, (sentence_same_complements finish ho _).fails_iff, Step.map_fails,
      complements_fails_iff]
    exact ⟨cs, left, rfl, hcs, rfl⟩

/-- Sentences fail exactly at their breaks. -/
theorem sentence_fails_iff {finish : Nat} {ts rest : List Token} {e : SyntaxError} :
    (sentence finish ts).Fails e rest ↔ BreaksAt (SentenceBreak finish) ts e rest := by
  refine ⟨sentenceBreak_of_fails, fun h => ?_⟩
  obtain ⟨read, left, rfl, hbreak, rfl⟩ := h
  exact hbreak.fails

/-! ## What a break tells -/

namespace Grammar

variable {finish : Nat} {read : List Token} {next : Option Token} {e : SyntaxError}

/-! No token that was read rightly is a separator. -/

theorem CoreBreak.not_separator (h : CoreBreak finish read next e) :
    ∀ t ∈ read, t.isSeparator = false := by
  have hdetermined {d : Token} {adjectives : List Token} (hd : d.category = .determiner)
      (ha : ∀ a ∈ adjectives, a.category = .adjective) :
      ∀ t ∈ d :: adjectives, t.isSeparator = false := by
    refine List.forall_mem_cons.2 ⟨Token.isSeparator_of_category hd (by decide), ?_⟩
    intro a hmem
    exact Token.isSeparator_of_category (ha a hmem) (by decide)
  cases h with
  | missing => exact List.forall_mem_nil _
  | badStart _ => exact List.forall_mem_nil _
  | bareNoun _ _ => exact List.forall_mem_nil _
  | noNoun hd ha _ _ => exact hdetermined hd ha
  | disagreement hd ha _ _ => exact hdetermined hd ha

theorem CoreBreak.not_separator_cons {p : Token} (hp : p.category = .preposition)
    (h : CoreBreak finish read next e) : ∀ t ∈ p :: read, t.isSeparator = false :=
  List.forall_mem_cons.2 ⟨Token.isSeparator_of_category hp (by decide), h.not_separator⟩

theorem ComplementsBreak.not_separator (h : ComplementsBreak finish read next e) :
    ∀ t ∈ read, t.isSeparator = false := by
  cases h with
  | object _ hcore => exact hcore.not_separator
  | modifier hcs hp hcore =>
    exact List.forall_mem_append.2 ⟨hcs.not_separator, hcore.not_separator_cons hp⟩

theorem SentenceBreak.not_separator (h : SentenceBreak finish read next e) :
    ∀ t ∈ read, t.isSeparator = false := by
  have hauxiliary {auxiliaries : List Token} (ha : ∀ a ∈ auxiliaries, a.category = .auxiliary) :
      ∀ t ∈ auxiliaries, t.isSeparator = false := by
    intro a hmem
    exact Token.isSeparator_of_category (ha a hmem) (by decide)
  cases h with
  | subject hcore => exact hcore.not_separator
  | subjectModifier hcore hms =>
    obtain ⟨hms, hp, hcore'⟩ := hms
    refine List.forall_mem_append.2 ⟨hcore.not_separator, ?_⟩
    exact List.forall_mem_append.2 ⟨hms.not_separator, hcore'.not_separator_cons hp⟩
  | noVerb hsubject ha _ _ _ =>
    exact List.forall_mem_append.2 ⟨hsubject.not_separator, hauxiliary ha⟩
  | disagreement hsubject ha _ _ =>
    exact List.forall_mem_append.2 ⟨hsubject.not_separator, hauxiliary ha⟩
  | complements ho hcs =>
    exact List.forall_mem_append.2 ⟨ho.not_separator, hcs.not_separator⟩

/-! The place of the end matters only where the end is reached. -/

variable {t : Token}

theorem Missed.of_some {c : Category} (h : Missed finish c (some t) e) (finish' : Nat) :
    Missed finish' c (some t) e := by
  cases h with
  | found hne => exact .found hne

theorem CoreBreak.of_some (h : CoreBreak finish read (some t) e) (finish' : Nat) :
    CoreBreak finish' read (some t) e := by
  cases h with
  | badStart ht => exact .badStart ht
  | bareNoun ht hbare => exact .bareNoun ht hbare
  | noNoun hd ha hne hmissed => exact .noNoun hd ha hne (hmissed.of_some finish')
  | disagreement hd ha hnoun hdisagree => exact .disagreement hd ha hnoun hdisagree

theorem ComplementsBreak.of_some (h : ComplementsBreak finish read (some t) e) (finish' : Nat) :
    ComplementsBreak finish' read (some t) e := by
  cases h with
  | object hstart hcore => exact .object hstart (hcore.of_some finish')
  | modifier hcs hp hcore => exact .modifier hcs hp (hcore.of_some finish')

theorem SentenceBreak.of_some (h : SentenceBreak finish read (some t) e) (finish' : Nat) :
    SentenceBreak finish' read (some t) e := by
  cases h with
  | subject hcore => exact .subject (hcore.of_some finish')
  | subjectModifier hcore hms =>
    obtain ⟨hms, hp, hcore'⟩ := hms
    exact .subjectModifier hcore (.intro hms hp (hcore'.of_some finish'))
  | noVerb hsubject ha hclosed hne hmissed =>
    exact .noVerb hsubject ha hclosed hne (hmissed.of_some finish')
  | disagreement hsubject ha hverb hne => exact .disagreement hsubject ha hverb hne
  | complements ho hcs => exact .complements ho (hcs.of_some finish')

end Grammar

end Concord
