import Concord.Grammar.SyntaxError

/-!
# Phrases

The grammar, with the number that each phrase hands on:

    Sentence     = NounPhrase AUX* V [NounPhrase] Modifiers
    NounPhrase   = PRON | DET ADJ* N Modifiers | N Modifiers
    Modifiers    = (PREP NounPhrase)*

A determiner agrees with its noun, a noun without a determiner has to be plural, uncountable or
collective, and the verb agrees with the first noun phrase. Every production reads one token ahead
and never goes back; where it fails it leaves unread what it had not consumed.

A production returns a `Step`, whose type says that what is left is an end of what was given. Main
statement: `sentence_length_lt`, a sentence that is read consumes at least one token.
-/

namespace Concord

/-- What a production makes of the tokens `ts`: its value or the error that ended it, and the tokens
left unread. -/
structure Step (ts : List Token) (α : Type) where
  outcome : Except SyntaxError α
  rest : List Token
  suffix : rest <:+ ts

namespace Step

variable {ts us : List Token} {α β : Type}

/-- Succeeds and reads nothing. -/
def done (a : α) : Step ts α := ⟨.ok a, ts, List.suffix_rfl⟩

/-- Fails and reads nothing. -/
def fail (e : SyntaxError) : Step ts α := ⟨.error e, ts, List.suffix_rfl⟩

/-- The same step as part of a longer list. -/
def within (s : Step us α) (h : us <:+ ts) : Step ts α := ⟨s.outcome, s.rest, s.suffix.trans h⟩

/-- Goes on with what a successful step left. -/
def andThen (s : Step ts α) (next : α → (rest : List Token) → rest <:+ ts → Step rest β) :
    Step ts β :=
  match s with
  | ⟨.error e, rest, h⟩ => ⟨.error e, rest, h⟩
  | ⟨.ok a, rest, h⟩ => (next a rest h).within h

/-- Changes the value of a successful step. -/
def map (f : α → β) (s : Step ts α) : Step ts β := ⟨s.outcome.map f, s.rest, s.suffix⟩

theorem length_rest_le (s : Step ts α) : s.rest.length ≤ ts.length := s.suffix.length_le

/-- Going on succeeds only after a success. -/
theorem exists_of_andThen_ok {s : Step ts α}
    {next : α → (rest : List Token) → rest <:+ ts → Step rest β} {b : β}
    (h : (s.andThen next).outcome = .ok b) : ∃ a, s.outcome = .ok a := by
  cases s with
  | mk outcome rest suffix =>
    cases outcome with
    | error e => simp [andThen] at h
    | ok a => exact ⟨a, rfl⟩

/-- Going on never gives tokens back. -/
theorem length_andThen_le (s : Step ts α)
    (next : α → (rest : List Token) → rest <:+ ts → Step rest β) :
    (s.andThen next).rest.length ≤ s.rest.length := by
  cases s with
  | mk outcome rest suffix =>
    cases outcome with
    | error e => exact Nat.le_refl _
    | ok a => exact length_rest_le (next a rest suffix)

theorem length_within_cons_lt (s : Step ts α) {t : Token} {h : ts <:+ t :: ts} :
    (s.within h).rest.length < (t :: ts).length :=
  Nat.lt_succ_of_le s.length_rest_le

end Step

/-- Positions are numbers of 64 bits, those below this one. -/
def positionLimit : Nat := UInt64.size

/-- The position reported when tokens are missing at the end of `tokens`: the one after the last of
them. The greatest position has none after it, and the count begins again at 0. -/
def endPosition (tokens : List Token) : Nat :=
  match tokens.getLast? with
  | some t => (t.position + 1) % positionLimit
  | none => 1

/-- The tokens after those of a category at the beginning. -/
def dropCategory (c : Category) (ts : List Token) : List Token :=
  ts.dropWhile fun t => t.category == c

theorem dropCategory_suffix (c : Category) (ts : List Token) : dropCategory c ts <:+ ts :=
  List.dropWhile_suffix _

/-- Reads one token of a category. The position `finish` is reported when there is no token. -/
def accept (finish : Nat) (expected : Category) : (ts : List Token) → Step ts Token
  | [] => .fail (.unexpectedEnd expected finish)
  | t :: ts =>
    if t.category = expected then ⟨.ok t, ts, List.suffix_cons t ts⟩
    else .fail (.unexpectedToken expected t.category t.word t.position)

/-- What a noun phrase is about: a pronoun, which takes no modifiers, or a noun. The number is the
one that the phrase hands on. -/
inductive PhraseHead where
  | pronoun (number : Number)
  | noun (number : Number)
  deriving DecidableEq

/-- Reads the noun of a determiner, with the adjectives before it. -/
def determinedNoun (finish : Nat) (determiner : Token) (ts : List Token) : Step ts PhraseHead :=
  let noun := (accept finish .noun (dropCategory .adjective ts)).within
    (dropCategory_suffix .adjective ts)
  noun.andThen fun noun _ _ =>
    let number := noun.number.agreement
    if determiner.number = .any ∨ determiner.number = number then .done (.noun number)
    else .fail (.determinerAgreement determiner.word determiner.number noun.word noun.number
      noun.position)

/-- Reads a noun phrase up to its noun or pronoun. -/
def phraseHead (finish : Nat) (ts : List Token) : Step ts PhraseHead :=
  match ts with
  | [] => .fail (.missingNounPhrase finish)
  | t :: ts =>
    match t.category with
    | .pronoun => (Step.done (.pronoun t.number)).within (List.suffix_cons t ts)
    | .determiner => (determinedNoun finish t ts).within (List.suffix_cons t ts)
    | .noun =>
      let noun : Step ts PhraseHead :=
        if t.number.allowsBareNoun then .done (.noun t.number.agreement)
        else .fail (.bareSingularNoun t.word t.position)
      noun.within (List.suffix_cons t ts)
    | found => .fail (.invalidNounPhraseStart found t.word t.position)

mutual

/-- Reads a noun phrase and returns its number. Its modifiers may be no shorter than it, so that it
counts as larger than they are. -/
def nounPhrase (finish : Nat) (ts : List Token) : Step ts Number :=
  (phraseHead finish ts).andThen fun head rest _h =>
    match head with
    | .pronoun number => .done number
    | .noun number => (modifiers finish rest).map fun _ => number
termination_by (ts.length, 1)
decreasing_by
  rcases Nat.lt_or_eq_of_le _h.length_le with hlt | heq
  · exact Prod.Lex.left _ _ hlt
  · rw [heq]
    exact Prod.Lex.right _ Nat.zero_lt_one

/-- Reads any number of prepositional phrases. -/
def modifiers (finish : Nat) (ts : List Token) : Step ts Unit :=
  match ts with
  | [] => .done ()
  | t :: ts =>
    if t.category = .preposition then
      let phrases : Step ts Unit :=
        (nounPhrase finish ts).andThen fun _ rest _h => modifiers finish rest
      phrases.within (List.suffix_cons t ts)
    else .done ()
termination_by (ts.length, 0)
decreasing_by
  · exact Prod.Lex.left _ _ (Nat.lt_succ_self _)
  · exact Prod.Lex.left _ _ (Nat.lt_succ_of_le _h.length_le)

end

/-- Reads what may follow a verb: an object, and modifiers. -/
def complements (finish : Nat) (ts : List Token) : Step ts Unit :=
  match ts with
  | [] => .done ()
  | t :: ts =>
    if t.category.startsNounPhrase then
      (nounPhrase finish (t :: ts)).andThen fun _ rest _ => modifiers finish rest
    else modifiers finish (t :: ts)

/-- Reads a verb phrase for a subject of the given number. -/
def verbPhrase (finish : Nat) (subject : Number) (ts : List Token) : Step ts Unit :=
  let verb := (accept finish .verb (dropCategory .auxiliary ts)).within
    (dropCategory_suffix .auxiliary ts)
  verb.andThen fun verb rest _ =>
    if verb.number ≠ subject then
      .fail (.subjectVerbAgreement subject verb.word verb.number verb.position)
    else complements finish rest

/-- Reads a sentence and returns the number of its subject. -/
def sentence (finish : Nat) (ts : List Token) : Step ts Number :=
  (nounPhrase finish ts).andThen fun subject rest _ =>
    (verbPhrase finish subject rest).map fun _ => subject

/-! ## Progress -/

/-- The head of a noun phrase is at least one token. -/
theorem phraseHead_length_lt {finish : Nat} {ts : List Token} {h : PhraseHead}
    (hok : (phraseHead finish ts).outcome = .ok h) :
    (phraseHead finish ts).rest.length < ts.length := by
  cases ts with
  | nil => simp [phraseHead, Step.fail] at hok
  | cons t ts =>
    rw [phraseHead] at hok ⊢
    split at hok
    · exact Step.length_within_cons_lt _
    · exact Step.length_within_cons_lt _
    · exact Step.length_within_cons_lt _
    · simp [Step.fail] at hok

/-- A noun phrase consumes at least one token. -/
theorem nounPhrase_length_lt {finish : Nat} {ts : List Token} {n : Number}
    (hok : (nounPhrase finish ts).outcome = .ok n) :
    (nounPhrase finish ts).rest.length < ts.length := by
  rw [nounPhrase] at hok ⊢
  obtain ⟨h, hhead⟩ := Step.exists_of_andThen_ok hok
  exact Nat.lt_of_le_of_lt (Step.length_andThen_le _ _) (phraseHead_length_lt hhead)

/-- A sentence consumes at least one token. -/
theorem sentence_length_lt {finish : Nat} {ts : List Token} {n : Number}
    (h : (sentence finish ts).outcome = .ok n) :
    (sentence finish ts).rest.length < ts.length := by
  obtain ⟨m, hm⟩ := Step.exists_of_andThen_ok h
  exact Nat.lt_of_le_of_lt (Step.length_andThen_le _ _) (nounPhrase_length_lt hm)

end Concord
