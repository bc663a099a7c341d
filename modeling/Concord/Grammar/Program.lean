import Concord.Grammar.Phrase

/-!
# Programs

A program is a sequence of sentences separated by commas. It is read in two modes: while `scanning`,
a sentence and the separator after it are read; the first error ends the sentence, is recorded, and
turns the mode to `recovering`, in which everything through the next separator is dropped. So every
failing sentence gives one error, and reading always reaches the end.

Main statement: `Stage.measure_advance_lt`, the mode and the tokens left give a measure that every
step lowers, so that reading ends.
-/

namespace Concord

/-- What was found in a program. -/
structure Report where
  sentences : Nat
  errors : List SyntaxError
  deriving DecidableEq

namespace Report

/-- Nothing found. -/
def empty : Report := ⟨0, []⟩

/-- Puts a finding before the others: a sentence, an error, or nothing. -/
def record (found : Option (Except SyntaxError Unit)) (r : Report) : Report :=
  match found with
  | none => r
  | some (.ok ()) => { r with sentences := r.sentences + 1 }
  | some (.error e) => { r with errors := e :: r.errors }

end Report

/-- Reads a sentence with the separator after it. -/
def scanSentence (finish : Nat) (ts : List Token) : Step ts Unit :=
  match ts with
  | [] => .fail (.missingNounPhrase finish)
  | t :: ts =>
    if t.isSeparator then .fail (.leadingSeparator t.position)
    else
      (sentence finish (t :: ts)).andThen fun _ rest _ =>
        match rest with
        | [] => .done ()
        | next :: rest =>
          if next.isSeparator then ⟨.ok (), rest, List.suffix_cons next rest⟩
          else .fail (.expectedSeparator next.word next.position)

/-- A sentence that is read, with its separator, is at least one token. -/
theorem scanSentence_length_lt {finish : Nat} {ts : List Token}
    (h : (scanSentence finish ts).outcome = .ok ()) :
    (scanSentence finish ts).rest.length < ts.length := by
  cases ts with
  | nil => simp [scanSentence, Step.fail] at h
  | cons t ts =>
    simp only [scanSentence] at h ⊢
    split at h
    · simp [Step.fail] at h
    · next hsep =>
      obtain ⟨n, hn⟩ := Step.exists_of_andThen_ok h
      rw [if_neg hsep]
      exact Nat.lt_of_le_of_lt (Step.length_andThen_le _ _) (sentence_length_lt hn)

/-- The tokens after the first separator. -/
def afterSeparator : List Token → List Token
  | [] => []
  | t :: ts => if t.isSeparator then ts else afterSeparator ts

/-- Recovering drops at least one token. -/
theorem length_afterSeparator_lt {ts : List Token} (h : ts ≠ []) :
    (afterSeparator ts).length < ts.length := by
  induction ts with
  | nil => exact absurd rfl h
  | cons t ts ih =>
    rw [afterSeparator]
    split
    · exact Nat.lt_succ_self _
    · cases ts with
      | nil => simp [afterSeparator]
      | cons u us => exact Nat.lt_succ_of_lt (ih (by simp))

/-! ## Reading a program -/

/-- What is being done with the next token. -/
inductive Mode where
  | scanning
  | recovering
  deriving DecidableEq

/-- A point in the reading of a program. -/
structure Stage where
  mode : Mode
  rest : List Token

namespace Stage

/-- Lowered by every step, because recovering always drops a token and scanning either consumes one
or turns to recovering. -/
def measure (s : Stage) : Nat :=
  2 * s.rest.length + match s.mode with
    | .scanning => 1
    | .recovering => 0

/-- One step: what is found, and where reading goes on. -/
def advance (finish : Nat) (s : Stage) : Option (Except SyntaxError Unit) × Stage :=
  match s.mode with
  | .recovering => (none, ⟨.scanning, afterSeparator s.rest⟩)
  | .scanning =>
    match scanSentence finish s.rest with
    | ⟨.ok (), rest, _⟩ => (some (.ok ()), ⟨.scanning, rest⟩)
    | ⟨.error e, rest, _⟩ => (some (.error e), ⟨.recovering, rest⟩)

theorem measure_advance_lt {finish : Nat} {s : Stage} (hrest : s.rest ≠ []) :
    (s.advance finish).2.measure < s.measure := by
  obtain ⟨mode, rest⟩ := s
  cases mode with
  | recovering =>
    have hlt : (afterSeparator rest).length < rest.length := length_afterSeparator_lt hrest
    simp only [advance, measure]
    omega
  | scanning =>
    have hlt := @scanSentence_length_lt finish rest
    have hle := (scanSentence finish rest).length_rest_le
    simp only [advance]
    split
    · next left _ hscan =>
      have hlt : left.length < rest.length := by simpa [hscan] using hlt
      simp only [measure]
      omega
    · next left _ hscan =>
      have hle : left.length ≤ rest.length := by simpa [hscan] using hle
      simp only [measure]
      omega

/-- Reads the rest of a program. -/
def run (finish : Nat) (s : Stage) : Report :=
  if _h : s.rest = [] then .empty
  else (run finish (s.advance finish).2).record (s.advance finish).1
termination_by s.measure
decreasing_by exact measure_advance_lt _h

end Stage

/-- Reads a program. One that holds nothing but separators has neither sentences nor errors. -/
def parseProgram (tokens : List Token) : Report :=
  if tokens.all Token.isSeparator then .empty
  else Stage.run (endPosition tokens) ⟨.scanning, tokens⟩

end Concord
