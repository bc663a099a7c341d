import Concord.Lexicon.Code

/-!
# Word categories

The part of speech of a word, with the short code under which it is shown and the names under which
a lexicon file may give it.
-/

namespace Concord

/-- A part of speech. The comma is the separator of sentences. -/
inductive Category where
  | determiner
  | noun
  | pronoun
  | verb
  | auxiliary
  | adjective
  | preposition
  | comma
  deriving DecidableEq

namespace Category

/-- Every category. -/
def all : List Category :=
  [determiner, noun, pronoun, verb, auxiliary, adjective, preposition, comma]

/-- The code under which a category is shown. -/
def code : Category → String
  | determiner => "DET"
  | noun => "N"
  | pronoun => "PRON"
  | verb => "V"
  | auxiliary => "AUX"
  | adjective => "ADJ"
  | preposition => "PREP"
  | comma => "COMMA"

/-- The names of a category in a lexicon file, in lower case. -/
def aliases : Category → List String
  | determiner => ["det", "determiner", "determinante"]
  | noun => ["n", "noun", "sustantivo"]
  | pronoun => ["pron", "pronoun", "pronombre"]
  | verb => ["v", "verb", "verbo"]
  | auxiliary => ["aux", "auxiliary", "auxiliar"]
  | adjective => ["adj", "adjective", "adjetivo"]
  | preposition => ["prep", "preposition", "preposicion"]
  | comma => ["comma", ","]

/-- The category that a text names, whatever its case and the blanks around it. -/
def ofCode? : String → Option Category := Code.find? aliases all

/-- Whether a word of this category can be the first of a noun phrase. -/
def startsNounPhrase : Category → Bool
  | determiner | pronoun | noun => true
  | _ => false

theorem mem_all (c : Category) : c ∈ all := by cases c <;> decide

/-- A category is found under its own code. -/
theorem ofCode?_code (c : Category) : ofCode? c.code = some c := by cases c <;> decide

end Category

end Concord
