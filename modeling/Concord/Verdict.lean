import Concord.Grammar.Program

/-!
# Verdicts

What is said about a text in the end. There are four verdicts: a word is unknown, nothing was given,
every sentence is accepted, or some sentences are rejected, each with one error.
-/

namespace Concord

/-- The answer about a text. -/
inductive Verdict where
  | unreadable (error : LexicalError)
  | noInput
  | accepted
  | rejected (errors : List SyntaxError)
  deriving DecidableEq

namespace Verdict

/-- Whether a text is accepted. -/
def ok : Verdict → Bool
  | accepted => true
  | _ => false

/-- The texts shown for a verdict. -/
def messages : Verdict → List String
  | unreadable error => ["Lexical Error: " ++ error.message]
  | noInput => ["No input provided."]
  | accepted => ["Parsing successful."]
  | rejected errors => errors.map SyntaxError.message

/-- The messages of a text that is not accepted. -/
def errors (v : Verdict) : List String := if v.ok then [] else v.messages

end Verdict

/-- The verdict about a program that has been read. -/
def Report.verdict (r : Report) : Verdict :=
  if r.errors ≠ [] then .rejected r.errors
  else if r.sentences = 0 then .noInput
  else .accepted

/-- The verdict about a text. -/
def analyze (lexicon : Lexicon) (text : String) : Verdict :=
  match tokenize lexicon text with
  | .error e => .unreadable e
  | .ok tokens => (parseProgram tokens).verdict

end Concord
