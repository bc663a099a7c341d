import Concord.Lexicon.Category

/-!
# Grammatical number

The number of a word as a lexicon gives it. For nouns it also says whether the word can be counted;
what counts between a noun and its determiner or verb is only the `agreement` of its number.
-/

namespace Concord

/-- The number of a word. `any` agrees with everything. -/
inductive Number where
  | singular
  | plural
  | singularCountable
  | uncountable
  | collective
  | any
  deriving DecidableEq

namespace Number

/-- Every number. -/
def all : List Number := [singular, plural, singularCountable, uncountable, collective, any]

/-- The code under which a number is shown. -/
def code : Number → String
  | singular => "SG"
  | plural => "PL"
  | singularCountable => "SGC"
  | uncountable => "UNC"
  | collective => "COLL"
  | any => "ANY"

/-- The names of a number in a lexicon file, in lower case. A blank field means any number. -/
def aliases : Number → List String
  | singular => ["sg", "s", "sing", "singular"]
  | plural => ["pl", "p", "plural"]
  | singularCountable => ["sgc", "countable", "singular-countable"]
  | uncountable => ["unc", "uncountable"]
  | collective => ["coll", "collective"]
  | any => ["any", ""]

/-- The number that a text names, whatever its case and the blanks around it. -/
def ofCode? : String → Option Number := Code.find? aliases all

/-- The number that a noun phrase takes from its noun. -/
def agreement : Number → Number
  | plural => plural
  | any => any
  | _ => singular

/-- Whether a noun of this number can stand without a determiner. -/
def allowsBareNoun : Number → Bool
  | plural | uncountable | collective => true
  | _ => false

theorem mem_all (n : Number) : n ∈ all := by cases n <;> decide

/-- A number is found under its own code. -/
theorem ofCode?_code (n : Number) : ofCode? n.code = some n := by cases n <;> decide

end Number

end Concord
