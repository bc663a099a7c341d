import Concord.Grammar.Phrase

/-!
# Reading tokens by hand

A `Cursor` stands somewhere in a list of tokens. Single productions can be tried at it, one after
the other; a failing production leaves it where the production stopped.

Main statements: `rest_eq_drop` and `index_eq_iff`, what is left is told by the number of tokens
passed; `index_eq_add`, this number is raised by what is passed; `le_index_attempt`, no production
goes back.
-/

namespace Concord

/-- A place in a list of tokens: the whole list and what is left of it. -/
structure Cursor where
  tokens : List Token
  rest : List Token
  suffix : rest <:+ tokens

namespace Cursor

/-- The place before the first token. -/
def start (tokens : List Token) : Cursor := ⟨tokens, tokens, List.suffix_rfl⟩

/-- The number of tokens already passed. -/
def index (c : Cursor) : Nat := c.tokens.length - c.rest.length

/-- Whether no token is left. -/
def atEnd (c : Cursor) : Bool := c.rest.isEmpty

/-- The next token. -/
def current? (c : Cursor) : Option Token := c.rest.head?

/-- Passes the next token. -/
def skip (c : Cursor) : Cursor :=
  ⟨c.tokens, c.rest.tail, (List.tail_suffix c.rest).trans c.suffix⟩

/-- Tries a production; the cursor then stands where the production stopped. -/
def attempt {α : Type} (c : Cursor) (production : Nat → (ts : List Token) → Step ts α) :
    Except SyntaxError α × Cursor :=
  let step := production (endPosition c.tokens) c.rest
  (step.outcome, ⟨c.tokens, step.rest, step.suffix.trans c.suffix⟩)

/-- Reads one token of a category. -/
def accept (c : Cursor) (expected : Category) : Except SyntaxError Token × Cursor :=
  c.attempt fun finish => Concord.accept finish expected

/-- Reads a noun phrase. -/
def nounPhrase (c : Cursor) : Except SyntaxError Number × Cursor := c.attempt Concord.nounPhrase

/-- Reads a sentence. -/
def sentence (c : Cursor) : Except SyntaxError Number × Cursor := c.attempt Concord.sentence

/-! ## Places -/

variable {c c' : Cursor}

theorem index_le (c : Cursor) : c.index ≤ c.tokens.length := Nat.sub_le _ _

theorem rest_eq_drop (c : Cursor) : c.rest = c.tokens.drop c.index :=
  List.suffix_iff_eq_drop.1 c.suffix

theorem index_eq_iff {i : Nat} :
    c.index = i ↔ i ≤ c.tokens.length ∧ c.rest = c.tokens.drop i := by
  constructor
  · intro h
    subst h
    exact ⟨c.index_le, c.rest_eq_drop⟩
  · intro h
    rw [index, h.2, List.length_drop, Nat.sub_sub_self h.1]

/-- Every place in the tokens is one of a cursor. -/
theorem exists_index_eq {tokens : List Token} {i : Nat} (h : i ≤ tokens.length) :
    ∃ c : Cursor, c.tokens = tokens ∧ c.index = i :=
  ⟨⟨tokens, tokens.drop i, List.drop_suffix i tokens⟩, rfl, index_eq_iff.2 ⟨h, rfl⟩⟩

theorem current?_eq (c : Cursor) : c.current? = c.tokens[c.index]? := by
  rw [current?, rest_eq_drop, List.head?_drop]

/-- A cursor that has passed some tokens more stands further on by as many. -/
theorem index_eq_add (htokens : c'.tokens = c.tokens) {passed : List Token}
    (h : c.rest = passed ++ c'.rest) : c'.index = c.index + passed.length := by
  have hle := c.suffix.length_le
  have hlength := congrArg List.length h
  rw [List.length_append] at hlength
  rw [index, index, htokens]
  omega

theorem index_lt_of_length_lt (htokens : c'.tokens = c.tokens)
    (h : c'.rest.length < c.rest.length) : c.index < c'.index := by
  have hle := c.suffix.length_le
  rw [index, index, htokens]
  omega

theorem getElem?_index_add {before after : List Token} {t : Token}
    (h : c.rest = before ++ t :: after) : c.tokens[c.index + before.length]? = some t := by
  rw [← List.getElem?_drop, ← rest_eq_drop, h]
  simp

/-- No production goes back. -/
theorem le_index_attempt {α : Type} (c : Cursor)
    (production : Nat → (ts : List Token) → Step ts α) :
    c.index ≤ (c.attempt production).2.index :=
  Nat.sub_le_sub_left (Step.length_rest_le _) _

end Cursor

end Concord
