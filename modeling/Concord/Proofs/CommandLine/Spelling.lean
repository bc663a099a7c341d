import Mathlib.Data.List.TakeWhile
import Concord.Proofs.CommandLine.Collection
import Concord.Proofs.Text.Cutting

/-!
# Spellings

The words of a command line spell arguments, and there are many ways to spell one. An option has a
long name and most have a letter; a value stands in the word of its option or is the next word;
options without a value share a word, and one with a value may end it; after `--` every word is an
operand.

This is said by a relation (`Group`, `Spells`) that knows the names of the options and the forms of
the words, and nothing of how they are read. It holds for any arguments, also for those that are
refused in the end. Words are bytes; the dash is 45 and the equals sign is 61. Reading agrees with
it: words that spell some arguments are read as these arguments, one after the other, and words that
are accepted spell some arguments. What is told about words that are refused may depend on the words
after them, so reading is compared by what it gives, without its faults.

Main statements: `ofArguments_of_takeArguments` and `exists_takeArguments_of_ofArguments`, the words
of a command line are read as the arguments they spell; `exists_spells`, accepted words spell
arguments.
-/

namespace Concord

open Text

/-! ## Names -/

/-- The long name of an option. -/
def CommandOption.name : CommandOption → String
  | setting .file => "file"
  | setting .lexicon => "lexicon"
  | setting .extra => "custom-dict"
  | setting .format => "format"
  | flag .tokens => "tokens"
  | flag .verbose => "verbose"
  | flag .help => "help"
  | flag .version => "version"

/-- The letter of an option without a value. -/
def Flag.letter : Flag → UInt8
  | tokens => 't'.toUInt8
  | verbose => 'v'.toUInt8
  | help => 'h'.toUInt8
  | version => 'V'.toUInt8

/-- The letter of an option with a value, if it has one. -/
def Setting.letter? : Setting → Option UInt8
  | file => some 'f'.toUInt8
  | extra => some 'd'.toUInt8
  | lexicon => none
  | format => none

/-- The letter of an option, if it has one. -/
def CommandOption.letter? : CommandOption → Option UInt8
  | .flag f => some f.letter
  | .setting s => s.letter?

theorem mem_of_lookup {α β : Type} [BEq α] [LawfulBEq α] {a : α} {b : β} {l : List (α × β)}
    (h : l.lookup a = some b) : (a, b) ∈ l := by
  obtain ⟨before, after, rfl, -⟩ := List.lookup_eq_some_iff.1 h
  simp

namespace CommandOption

theorem ofName?_eq_some_iff {name : Bytes} {option : CommandOption} :
    ofName? name = some option ↔ name = encode option.name := by
  constructor
  · intro h
    have hmem : (name, option) ∈ longNames := mem_of_lookup h
    simp only [longNames, List.mem_cons, List.not_mem_nil, or_false, Prod.mk.injEq] at hmem
    rcases hmem with ⟨rfl, rfl⟩ | ⟨rfl, rfl⟩ | ⟨rfl, rfl⟩ | ⟨rfl, rfl⟩ | ⟨rfl, rfl⟩ | ⟨rfl, rfl⟩ |
      ⟨rfl, rfl⟩ | ⟨rfl, rfl⟩ <;> rfl
  · rintro rfl
    rcases option with flag | setting
    · cases flag <;> rfl
    · cases setting <;> rfl

theorem ofLetter?_eq_some_iff {letter : UInt8} {option : CommandOption} :
    ofLetter? letter = some option ↔ option.letter? = some letter := by
  constructor
  · intro h
    have hmem : (letter, option) ∈ letters := mem_of_lookup h
    simp only [letters, List.mem_cons, List.not_mem_nil, or_false, Prod.mk.injEq] at hmem
    rcases hmem with ⟨rfl, rfl⟩ | ⟨rfl, rfl⟩ | ⟨rfl, rfl⟩ | ⟨rfl, rfl⟩ | ⟨rfl, rfl⟩ | ⟨rfl, rfl⟩ <;>
      rfl
  · intro h
    rcases option with flag | setting
    · obtain rfl := Option.some.inj h
      cases flag <;> rfl
    · cases setting with
      | file | extra =>
        obtain rfl := Option.some.inj h
        rfl
      | lexicon | format => exact nomatch h

/-- A name is not empty, -/
theorem name_ne_nil (option : CommandOption) : encode option.name ≠ [] := by
  rcases option with flag | setting
  · cases flag <;> decide
  · cases setting <;> decide

/-- and no equals sign is in it. -/
theorem not_mem_name (option : CommandOption) : 61 ∉ encode option.name := by
  rcases option with flag | setting
  · cases flag <;> decide
  · cases setting <;> decide

/-- The dash is no letter. -/
theorem letter?_ne_dash (option : CommandOption) : option.letter? ≠ some 45 := by
  rcases option with flag | setting
  · cases flag <;> decide
  · cases setting <;> decide

end CommandOption

/-! ## The forms of words -/

/-- A word that is no option: it does not begin with a dash, or it is a single dash. -/
def IsOperand (word : Bytes) : Prop := word.head? ≠ some 45 ∨ word = [45]

instance (word : Bytes) : Decidable (IsOperand word) := inferInstanceAs (Decidable (_ ∨ _))

theorem shape_of_isOperand {word : Bytes} (h : IsOperand word) : WordShape.of word = .operand := by
  rcases h with h | rfl
  · cases word with
    | nil => rfl
    | cons b rest =>
      have hb : b ≠ 45 := fun hb => h (by rw [hb, List.head?_cons])
      unfold WordShape.of
      split <;> simp_all
  · rfl

theorem shape_long {rest : Bytes} (h : rest ≠ []) :
    WordShape.of (45 :: 45 :: rest) = .long (splitValue rest).1 (splitValue rest).2 := by
  cases rest with
  | nil => exact absurd rfl h
  | cons b rest => rfl

theorem shape_letters {letter : UInt8} (h : letter ≠ 45) (rest : Bytes) :
    WordShape.of (45 :: letter :: rest) = .letters (letter :: rest) := by
  unfold WordShape.of
  split <;> simp_all

/-- The four forms of words. -/
theorem word_cases (word : Bytes) :
    IsOperand word ∨ word = [45, 45] ∨ (∃ rest, rest ≠ [] ∧ word = 45 :: 45 :: rest) ∨
      ∃ letter rest, letter ≠ 45 ∧ word = 45 :: letter :: rest := by
  rcases word with _ | ⟨b, _ | ⟨letter, rest⟩⟩
  · exact .inl (.inl (by simp))
  · by_cases hb : b = 45
    · exact .inl (.inr (by rw [hb]))
    · exact .inl (.inl (by simpa using hb))
  · by_cases hb : b = 45
    · subst hb
      by_cases hletter : letter = 45
      · subst hletter
        by_cases hrest : rest = []
        · exact .inr (.inl (by rw [hrest]))
        · exact .inr (.inr (.inl ⟨rest, hrest, rfl⟩))
      · exact .inr (.inr (.inr ⟨letter, rest, hletter, rfl⟩))
    · exact .inl (.inl (by simpa using hb))

theorem splitValue_of_not_mem {name : Bytes} (h : 61 ∉ name) : splitValue name = (name, none) := by
  have hdrop : name.dropWhile (· != 61) = [] :=
    List.dropWhile_eq_nil_iff.2 fun b hb => bne_iff_ne.2 fun heq => h (heq ▸ hb)
  rw [splitValue, hdrop]

theorem splitValue_append {name : Bytes} (h : 61 ∉ name) (value : Bytes) :
    splitValue (name ++ 61 :: value) = (name, some value) := by
  have hname : ∀ b ∈ name, (b != 61) = true := fun b hb => bne_iff_ne.2 fun heq => h (heq ▸ hb)
  have hdrop : (name ++ 61 :: value).dropWhile (· != 61) = 61 :: value := by
    rw [List.dropWhile_append_of_pos hname]
    rfl
  have htake : (name ++ 61 :: value).takeWhile (· != 61) = name := by
    rw [List.takeWhile_append_of_pos hname]
    exact List.append_nil name
  rw [splitValue, hdrop]
  simp only [htake]

/-- A word has no value, or it is cut at its first equals sign. -/
theorem splitValue_cases (word : Bytes) :
    splitValue word = (word, none) ∨
      ∃ name value, word = name ++ 61 :: value ∧ splitValue word = (name, some value) := by
  have hnot {front : Bytes} (h : ∀ b ∈ front, (b == 61) = false) : 61 ∉ front :=
    fun hmem => nomatch h 61 hmem
  rcases not_break_or_exists_first (· == 61) word with hnone | ⟨name, b, value, rfl, hname, hb⟩
  · exact .inl (splitValue_of_not_mem (hnot hnone))
  · obtain rfl := beq_iff_eq.1 hb
    exact .inr ⟨name, value, rfl, splitValue_append (hnot hname) value⟩

/-! ## What words spell -/

/-- The word of a long name. -/
def CommandOption.longWord (option : CommandOption) : Bytes := 45 :: 45 :: encode option.name

/-- Words that stand together, and the arguments they spell. -/
inductive Group : List Bytes → List Argument → Prop
  /-- `word` -/
  | operand {word : Bytes} : IsOperand word → Group [word] [.operand word]
  /-- `--name` -/
  | long (flag : Flag) : Group [(CommandOption.flag flag).longWord] [.flag flag]
  /-- `--name=value` -/
  | longEquals (setting : Setting) (value : Bytes) :
      Group [(CommandOption.setting setting).longWord ++ 61 :: value] [.setting setting value]
  /-- `--name value` -/
  | longApart (setting : Setting) {value : Bytes} : IsOperand value →
      Group [(CommandOption.setting setting).longWord, value] [.setting setting value]
  /-- `-abc` -/
  | letters {flags : List Flag} : flags ≠ [] →
      Group [45 :: flags.map Flag.letter] (flags.map .flag)
  /-- `-abcvalue` -/
  | lettersJoined (flags : List Flag) {setting : Setting} {letter : UInt8} {value : Bytes} :
      setting.letter? = some letter → value ≠ [] → value.head? ≠ some 61 →
      Group [45 :: (flags.map Flag.letter ++ letter :: value)]
        (flags.map .flag ++ [.setting setting value])
  /-- `-abc=value` -/
  | lettersEquals (flags : List Flag) {setting : Setting} {letter : UInt8} (value : Bytes) :
      setting.letter? = some letter →
      Group [45 :: (flags.map Flag.letter ++ letter :: 61 :: value)]
        (flags.map .flag ++ [.setting setting value])
  /-- `-abc value` -/
  | lettersApart (flags : List Flag) {setting : Setting} {letter : UInt8} {value : Bytes} :
      setting.letter? = some letter → IsOperand value →
      Group [45 :: (flags.map Flag.letter ++ [letter]), value]
        (flags.map .flag ++ [.setting setting value])

/-- The words of a command line, and the arguments they spell. -/
inductive Spells : List Bytes → List Argument → Prop
  | nil : Spells [] []
  | group {group words : List Bytes} {args args' : List Argument} : Group group args →
      Spells words args' → Spells (group ++ words) (args ++ args')
  /-- `-- word word` -/
  | operands (words : List Bytes) : Spells ([45, 45] :: words) (words.map .operand)

/-! ## Reading what is spelled -/

theorem toOption_map {ε α β : Type} (x : Except ε α) (f : α → β) :
    (x.map f).toOption = x.toOption.map f := by
  cases x <;> rfl

theorem toOption_eq_some_iff {ε α : Type} {x : Except ε α} {a : α} :
    x.toOption = some a ↔ x = .ok a := by
  cases x <;> simp [Except.toOption]

namespace Scan

theorem takeAll_cons {s s' : Scan} {word : Bytes} (h : s.take word = .ok s') (words : List Bytes) :
    s.takeAll (word :: words) = s'.takeAll words := by
  simp only [takeAll, h]

theorem takeAll_singleton (s : Scan) (word : Bytes) :
    (s.takeAll [word]).toOption = (s.take word).toOption := by
  simp only [takeAll]
  cases s.take word <;> rfl

theorem takeAll_append (s : Scan) (words words' : List Bytes) :
    (s.takeAll (words ++ words')).toOption =
      (s.takeAll words).toOption.bind fun s => (s.takeAll words').toOption := by
  induction words generalizing s with
  | nil => rfl
  | cons word words ih =>
    simp only [List.cons_append, takeAll]
    cases s.take word with
    | error stop => rfl
    | ok s => exact ih s

end Scan

namespace Given

theorem takeArguments_singleton (g : Given) (a : Argument) :
    g.takeArguments [a] = g.takeArgument a := by
  rw [takeArguments, List.foldlM_cons]
  exact bind_pure _

theorem takeArguments_append (g : Given) (args args' : List Argument) :
    g.takeArguments (args ++ args') = g.takeArguments args >>= fun g => g.takeArguments args' :=
  List.foldlM_append

/-- Letters of options without a value are read one by one. -/
theorem takeLetters_flags (g : Given) (flags : List Flag) (rest : Bytes) :
    Scan.takeLetters g (flags.map Flag.letter ++ rest) =
      g.takeArguments (flags.map .flag) >>= fun g => Scan.takeLetters g rest := by
  induction flags generalizing g with
  | nil => rfl
  | cons flag flags ih =>
    have hletter : CommandOption.ofLetter? flag.letter = some (.flag flag) :=
      CommandOption.ofLetter?_eq_some_iff.2 rfl
    rw [List.map_cons, List.cons_append, List.map_cons, takeArguments, List.foldlM_cons]
    simp only [Scan.takeLetters, hletter]
    change _ = (g.takeFlag flag >>= fun g => g.takeArguments (flags.map .flag)) >>= _
    cases g.takeFlag flag with
    | error stop => rfl
    | ok g => exact ih g

/-- The last letter, without anything after it, waits for its value. -/
theorem takeLetters_last (g : Given) {setting : Setting} {letter : UInt8}
    (hletter : setting.letter? = some letter) :
    Scan.takeLetters g [letter] = .ok ⟨g, .value setting⟩ := by
  have h : CommandOption.ofLetter? letter = some (.setting setting) :=
    CommandOption.ofLetter?_eq_some_iff.2 hletter
  simp [Scan.takeLetters, h]

/-- Anything after a letter that takes a value is its value, less an equals sign. -/
theorem takeLetters_value (g : Given) {setting : Setting} {letter : UInt8}
    (hletter : setting.letter? = some letter) {rest : Bytes} (hrest : rest ≠ []) :
    Scan.takeLetters g (letter :: rest) =
      (g.takeSetting setting (Scan.letterValue rest)).map (⟨·, .word⟩) := by
  have h : CommandOption.ofLetter? letter = some (.setting setting) :=
    CommandOption.ofLetter?_eq_some_iff.2 hletter
  simp [Scan.takeLetters, h, hrest]

end Given

theorem letterValue_of_head? {value : Bytes} (h : value.head? ≠ some 61) :
    Scan.letterValue value = value := by
  unfold Scan.letterValue
  split
  · exact absurd rfl h
  · rfl

theorem head?_letters {flags : List Flag} {rest : Bytes} (h : rest.head? ≠ some 45) :
    (flags.map Flag.letter ++ rest).head? ≠ some 45 := by
  cases flags with
  | nil => exact h
  | cons flag flags => exact CommandOption.letter?_ne_dash (.flag flag)

section

variable {g : Given}

theorem take_letters {letters : Bytes} (hne : letters ≠ []) (hdash : letters.head? ≠ some 45) :
    Scan.take ⟨g, .word⟩ (45 :: letters) = Scan.takeLetters g letters := by
  cases letters with
  | nil => exact absurd rfl hne
  | cons letter rest =>
    have hletter : letter ≠ 45 := fun h => hdash (by rw [h, List.head?_cons])
    simp only [Scan.take, shape_letters hletter]

/-- A word of letters of which the last takes a value. -/
theorem take_flags_letter (flags : List Flag) {setting : Setting} {letter : UInt8}
    (hletter : setting.letter? = some letter) (rest : Bytes) :
    Scan.take ⟨g, .word⟩ (45 :: (flags.map Flag.letter ++ letter :: rest)) =
      g.takeArguments (flags.map .flag) >>= fun g => Scan.takeLetters g (letter :: rest) := by
  have hdash : (letter :: rest).head? ≠ some 45 := by
    rw [List.head?_cons, ← hletter]
    exact CommandOption.letter?_ne_dash (.setting setting)
  rw [take_letters (by simp) (head?_letters hdash), g.takeLetters_flags]

/-- A word of letters of which the last has its value in the word. -/
theorem take_flags_value (flags : List Flag) {setting : Setting} {letter : UInt8}
    (hletter : setting.letter? = some letter) {rest : Bytes} (hrest : rest ≠ []) :
    Scan.take ⟨g, .word⟩ (45 :: (flags.map Flag.letter ++ letter :: rest)) =
      (g.takeArguments (flags.map .flag ++ [.setting setting (Scan.letterValue rest)])).map
        (⟨·, .word⟩) := by
  rw [take_flags_letter flags hletter, g.takeArguments_append]
  cases g.takeArguments (flags.map .flag) with
  | error stop => rfl
  | ok g =>
    change Scan.takeLetters g _ = (g.takeArguments _).map _
    rw [g.takeLetters_value hletter hrest, g.takeArguments_singleton]
    rfl

theorem take_longWord (option : CommandOption) :
    Scan.take ⟨g, .word⟩ option.longWord = Scan.takeLong g (encode option.name) none := by
  rw [CommandOption.longWord, Scan.take, shape_long option.name_ne_nil,
    splitValue_of_not_mem option.not_mem_name]

theorem take_longWord_value (option : CommandOption) (value : Bytes) :
    Scan.take ⟨g, .word⟩ (option.longWord ++ 61 :: value) =
      Scan.takeLong g (encode option.name) (some value) := by
  have hne : encode option.name ++ 61 :: value ≠ [] := by simp
  rw [CommandOption.longWord, List.cons_append, List.cons_append, Scan.take, shape_long hne,
    splitValue_append option.not_mem_name]

theorem take_operand {word : Bytes} (h : IsOperand word) :
    Scan.take ⟨g, .word⟩ word = (g.takeOperand word).map (⟨·, .word⟩) := by
  simp only [Scan.take, shape_of_isOperand h]

theorem take_value {value : Bytes} (h : IsOperand value) (setting : Setting) :
    Scan.take ⟨g, .value setting⟩ value = (g.takeSetting setting value).map (⟨·, .word⟩) := by
  simp only [Scan.take, shape_of_isOperand h]

/-- A group of words is read as its arguments. -/
theorem Group.takeAll_eq {words : List Bytes} {args : List Argument} (h : Group words args)
    (g : Given) : (Scan.takeAll ⟨g, .word⟩ words).toOption =
      (g.takeArguments args).toOption.map (⟨·, .word⟩) := by
  have hname (option : CommandOption) : CommandOption.ofName? (encode option.name) = some option :=
    CommandOption.ofName?_eq_some_iff.2 rfl
  cases h with
  | @operand word hword =>
    rw [Scan.takeAll_singleton, g.takeArguments_singleton, take_operand hword]
    exact toOption_map _ _
  | long flag =>
    rw [Scan.takeAll_singleton, g.takeArguments_singleton, take_longWord]
    simp only [Scan.takeLong, hname]
    exact toOption_map _ _
  | longEquals setting value =>
    rw [Scan.takeAll_singleton, g.takeArguments_singleton, take_longWord_value]
    simp only [Scan.takeLong, hname]
    exact toOption_map _ _
  | longApart setting hvalue =>
    have hwait : Scan.take ⟨g, .word⟩ (CommandOption.setting setting).longWord =
        .ok ⟨g, .value setting⟩ := by
      rw [take_longWord]
      simp only [Scan.takeLong, hname]
    rw [Scan.takeAll_cons hwait, Scan.takeAll_singleton, g.takeArguments_singleton,
      take_value hvalue]
    exact toOption_map _ _
  | @letters flags hflags =>
    have hread := g.takeLetters_flags flags []
    rw [List.append_nil] at hread
    have hdash : (flags.map Flag.letter).head? ≠ some 45 :=
      List.append_nil (flags.map Flag.letter) ▸ head?_letters (by simp)
    rw [Scan.takeAll_singleton, take_letters (by simpa using hflags) hdash, hread]
    exact toOption_map _ _
  | lettersJoined flags hletter hne hequals =>
    rw [Scan.takeAll_singleton, take_flags_value flags hletter hne, letterValue_of_head? hequals,
      toOption_map]
  | lettersEquals flags value hletter =>
    rw [Scan.takeAll_singleton, take_flags_value flags hletter (List.cons_ne_nil _ _),
      toOption_map]
    rfl
  | @lettersApart flags setting letter value hletter hvalue =>
    rw [← List.singleton_append, Scan.takeAll_append, Scan.takeAll_singleton,
      take_flags_letter flags hletter, g.takeArguments_append]
    cases g.takeArguments (flags.map .flag) with
    | error stop => rfl
    | ok g =>
      change (Scan.takeLetters g _).toOption.bind _ = (g.takeArguments _).toOption.map _
      rw [g.takeLetters_last hletter, g.takeArguments_singleton]
      change (Scan.takeAll _ _).toOption = _
      rw [Scan.takeAll_singleton, take_value hvalue]
      exact toOption_map _ _

/-- After `--` every word is read as an operand. -/
theorem takeAll_operands (g : Given) (words : List Bytes) :
    (Scan.takeAll ⟨g, .operand⟩ words).toOption =
      (g.takeArguments (words.map .operand)).toOption.map (⟨·, .operand⟩) := by
  induction words generalizing g with
  | nil => rfl
  | cons word words ih =>
    rw [List.map_cons, Given.takeArguments, List.foldlM_cons]
    simp only [Scan.takeAll, Scan.take]
    change _ = Option.map _ (g.takeOperand word >>= fun g => g.takeArguments _).toOption
    cases g.takeOperand word with
    | error stop => rfl
    | ok g => exact ih g

/-- The words of a command line are read as their arguments, and make the same configuration. -/
theorem Spells.takeAll_finish {words : List Bytes} {args : List Argument} (h : Spells words args)
    (g : Given) : (Scan.takeAll ⟨g, .word⟩ words).toOption.map Scan.finish =
      (g.takeArguments args).toOption.map Given.config := by
  induction h generalizing g with
  | nil => rfl
  | @group group words args args' hgroup _ ih =>
    rw [Scan.takeAll_append, hgroup.takeAll_eq, g.takeArguments_append]
    cases g.takeArguments args with
    | error stop => rfl
    | ok g => exact ih g
  | operands words =>
    have hdashes : Scan.take ⟨g, .word⟩ [45, 45] = .ok ⟨g, .operand⟩ := rfl
    rw [Scan.takeAll_cons hdashes, takeAll_operands]
    cases g.takeArguments (words.map .operand) <;> rfl

end

section

variable {words : List Bytes} {args : List Argument} (h : Spells words args)
include h

/-- A command line whose arguments are taken makes the configuration that is given by them. -/
theorem ofArguments_of_takeArguments {g : Given} (htake : Given.empty.takeArguments args = .ok g) :
    Config.ofArguments words = g.config := by
  have hfinish := h.takeAll_finish .empty
  rw [htake] at hfinish
  obtain ⟨s, hs, hconfig⟩ := Option.map_eq_some_iff.1 hfinish
  rw [Config.ofArguments, toOption_eq_some_iff.1 hs]
  exact hconfig

/-- A command line that is accepted makes the configuration that is given by its arguments. -/
theorem exists_takeArguments_of_ofArguments {config : Config}
    (hread : Config.ofArguments words = .ok config) :
    ∃ g, Given.empty.takeArguments args = .ok g ∧ g.config = .ok config := by
  cases htake : Given.empty.takeArguments args with
  | ok g => exact ⟨g, rfl, ofArguments_of_takeArguments h htake ▸ hread⟩
  | error stop =>
    have hfinish := h.takeAll_finish .empty
    rw [htake] at hfinish
    have hnone := Option.map_eq_none_iff.1 hfinish
    unfold Config.ofArguments at hread
    split at hread
    · exact nomatch hread
    next s hs =>
      rw [hs] at hnone
      exact nomatch hnone

end

/-! ## Accepted words spell arguments -/

section

variable {g : Given} {s : Scan} {word : Bytes} {setting : Setting}

/-- What the name is of a long option that is read. -/
theorem exists_name {name : Bytes} {value : Option Bytes}
    (h : Scan.takeLong g name value = .ok s) :
    (∃ flag, name = encode (CommandOption.flag flag).name ∧ value = none ∧ s.expecting = .word) ∨
      ∃ setting, name = encode (CommandOption.setting setting).name ∧
        s.expecting = if value = none then .value setting else .word := by
  unfold Scan.takeLong at h
  split at h
  · exact nomatch h
  · exact nomatch h
  next flag hname =>
    obtain ⟨_, -, rfl⟩ := map_eq_ok_iff.1 h
    exact .inl ⟨flag, CommandOption.ofName?_eq_some_iff.1 hname, rfl, rfl⟩
  next setting value hname =>
    obtain ⟨_, -, rfl⟩ := map_eq_ok_iff.1 h
    exact .inr ⟨setting, CommandOption.ofName?_eq_some_iff.1 hname, rfl⟩
  next setting hname =>
    cases h
    exact .inr ⟨setting, CommandOption.ofName?_eq_some_iff.1 hname, rfl⟩

/-- What the letters of a word are that are read: some that take no value, and after them
nothing, or one that takes a value. -/
theorem exists_letters {letters : Bytes} (h : Scan.takeLetters g letters = .ok s) :
    ∃ (flags : List Flag) (rest : Bytes), letters = flags.map Flag.letter ++ rest ∧
      ((rest = [] ∧ s.expecting = .word) ∨
        ∃ (setting : Setting) (letter : UInt8) (value : Bytes), setting.letter? = some letter ∧
          rest = letter :: value ∧
          s.expecting = if value = [] then .value setting else .word) := by
  induction letters generalizing g with
  | nil =>
    cases h
    exact ⟨[], [], rfl, .inl ⟨rfl, rfl⟩⟩
  | cons letter rest ih =>
    unfold Scan.takeLetters at h
    split at h
    · exact nomatch h
    next flag hflag =>
      split at h
      · exact nomatch h
      · obtain rfl := Option.some.inj (CommandOption.ofLetter?_eq_some_iff.1 hflag)
        obtain ⟨flags, last, rfl, hlast⟩ := ih h
        exact ⟨flag :: flags, last, rfl, hlast⟩
    next setting hsetting =>
      have hletter := CommandOption.ofLetter?_eq_some_iff.1 hsetting
      refine ⟨[], letter :: rest, rfl, .inr ⟨setting, letter, rest, hletter, rfl, ?_⟩⟩
      split at h
      next hempty =>
        cases h
        rw [if_pos (List.isEmpty_iff.1 hempty)]
      next hne =>
        obtain ⟨_, -, rfl⟩ := map_eq_ok_iff.1 h
        rw [if_neg fun hempty => hne (List.isEmpty_iff.2 hempty)]

/-- What a word is that stands first, from what is taken after it. -/
inductive Begins (word : Bytes) : Expecting → Prop
  | whole {args : List Argument} : Group [word] args → Begins word .word
  | value (args : List Argument) {setting : Setting} :
      (∀ value, IsOperand value → Group [word, value] (args ++ [.setting setting value])) →
      Begins word (.value setting)
  | operands : word = [45, 45] → Begins word .operand

theorem begins_of_takeLong {rest : Bytes} (hrest : rest ≠ [])
    (h : Scan.take ⟨g, .word⟩ (45 :: 45 :: rest) = .ok s) :
    Begins (45 :: 45 :: rest) s.expecting := by
  simp only [Scan.take, shape_long hrest] at h
  rcases splitValue_cases rest with hsplit | ⟨name, value, rfl, hsplit⟩
  · rw [hsplit] at h
    rcases exists_name h with ⟨flag, rfl, -, hexpecting⟩ | ⟨setting, rfl, hexpecting⟩
    · rw [hexpecting]
      exact .whole (.long flag)
    · rw [hexpecting, if_pos rfl]
      exact .value [] fun value hvalue => .longApart setting hvalue
  · rw [hsplit] at h
    rcases exists_name h with ⟨flag, -, hnone, -⟩ | ⟨setting, rfl, hexpecting⟩
    · exact nomatch hnone
    · rw [hexpecting, if_neg (Option.some_ne_none value)]
      exact .whole (.longEquals setting value)

theorem begins_of_takeLetters {letter : UInt8} (hletter : letter ≠ 45) {rest : Bytes}
    (h : Scan.take ⟨g, .word⟩ (45 :: letter :: rest) = .ok s) :
    Begins (45 :: letter :: rest) s.expecting := by
  simp only [Scan.take, shape_letters hletter] at h
  obtain ⟨flags, last, hletters, hlast⟩ := exists_letters h
  rw [hletters]
  rcases hlast with ⟨rfl, hexpecting⟩ | ⟨setting, letter, value, hsetting, rfl, hexpecting⟩
  · rw [hexpecting, List.append_nil]
    refine .whole (.letters fun hnil => ?_)
    rw [hnil] at hletters
    exact nomatch hletters
  · rw [hexpecting]
    by_cases hvalue : value = []
    · subst hvalue
      rw [if_pos rfl]
      exact .value _ fun value hvalue => .lettersApart flags hsetting hvalue
    · rw [if_neg hvalue]
      by_cases hequals : value.head? = some 61
      · obtain ⟨value, rfl⟩ := List.head?_eq_some_iff.1 hequals
        exact .whole (.lettersEquals flags value hsetting)
      · exact .whole (.lettersJoined flags hsetting hvalue hequals)

theorem begins_of_take (h : Scan.take ⟨g, .word⟩ word = .ok s) : Begins word s.expecting := by
  rcases word_cases word with hword | rfl | ⟨rest, hrest, rfl⟩ | ⟨letter, rest, hletter, rfl⟩
  · rw [take_operand hword] at h
    obtain ⟨_, -, rfl⟩ := map_eq_ok_iff.1 h
    exact .whole (.operand hword)
  · cases h
    exact .operands rfl
  · exact begins_of_takeLong hrest h
  · exact begins_of_takeLetters hletter h

theorem isOperand_of_take (h : Scan.take ⟨g, .value setting⟩ word = .ok s) :
    IsOperand word ∧ s.expecting = .word := by
  rcases word_cases word with hword | rfl | ⟨rest, hrest, rfl⟩ | ⟨letter, rest, hletter, rfl⟩
  · rw [take_value hword] at h
    obtain ⟨_, -, rfl⟩ := map_eq_ok_iff.1 h
    exact ⟨hword, rfl⟩
  · exact nomatch h
  · simp only [Scan.take, shape_long hrest] at h
    exact nomatch h
  · simp only [Scan.take, shape_letters hletter] at h
    exact nomatch h

/-- What may come after the first words. -/
inductive Continues : Expecting → List Bytes → Prop
  | word {words : List Bytes} {args : List Argument} : Spells words args → Continues .word words
  | value {setting : Setting} {value : Bytes} {words : List Bytes} {args : List Argument} :
      IsOperand value → Spells words args → Continues (.value setting) (value :: words)
  | operand {words : List Bytes} : Continues .operand words

theorem continues_of_takeAll {words : List Bytes} {s' : Scan} (h : s.takeAll words = .ok s')
    (hend : ∀ setting, s'.expecting ≠ .value setting) : Continues s.expecting words := by
  induction words generalizing s with
  | nil =>
    obtain rfl := Except.ok.inj h
    obtain ⟨g, expecting⟩ := s
    cases expecting with
    | word => exact .word .nil
    | value setting => exact absurd rfl (hend setting)
    | operand => exact .operand
  | cons word words ih =>
    unfold Scan.takeAll at h
    split at h
    · exact nomatch h
    next next hnext =>
      obtain ⟨g, expecting⟩ := s
      obtain ⟨g', expecting'⟩ := next
      have hrest : Continues expecting' words := ih h
      cases expecting with
      | word =>
        have hbegins : Begins word expecting' := begins_of_take hnext
        cases hbegins with
        | whole hgroup =>
          cases hrest with
          | word hspells => exact .word (.group hgroup hspells)
        | value _ hgroup =>
          cases hrest with
          | value hvalue hspells => exact .word (.group (hgroup _ hvalue) hspells)
        | operands hdashes =>
          subst hdashes
          exact .word (.operands words)
      | value setting =>
        obtain ⟨hvalue, hexpecting⟩ := isOperand_of_take hnext
        obtain rfl : expecting' = .word := hexpecting
        cases hrest with
        | word hspells => exact .value hvalue hspells
      | operand => exact .operand

end

/-- Accepted words spell arguments. -/
theorem exists_spells {words : List Bytes} {config : Config}
    (h : Config.ofArguments words = .ok config) : ∃ args, Spells words args := by
  unfold Config.ofArguments at h
  split at h
  · exact nomatch h
  next s hread =>
    have hend : ∀ setting, s.expecting ≠ .value setting := by
      intro setting hvalue
      rw [Scan.finish, hvalue] at h
      exact nomatch h
    cases continues_of_takeAll hread hend with
    | word hspells => exact ⟨_, hspells⟩

end Concord
