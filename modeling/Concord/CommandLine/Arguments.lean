import Concord.CommandLine.Options

/-!
# Arguments

The words of a command line, read from left to right. A word is

- `--name` or `--name=value`, a long option;
- `-abc`, several letters in one word, where a letter that takes a value takes the rest of the word
  (less one `=` at its front);
- `--`, after which every word is an operand;
- an operand: any other word, and a single `-`.

An option that takes a value and has none in its own word takes the next word, which must be an
operand. There is at most one operand, the text; it excludes `--file`, and one of the two is needed.
The first fault ends the reading, and so does a request for help or for the version.

An operand, and a value in a word of its own, are not looked at before the words after them begin to
be taken. So it is told first if these cannot be taken at all (`Scan.told`).
-/

namespace Concord

open Text

/-- What is wrong with a command line. -/
inductive UsageFault where
  | unknownArgument
  | invalidValue
  | tooManyValues
  | conflict
  | invalidUtf8
  | missingInput
  deriving DecidableEq

/-- Why a command line gives no configuration. -/
inductive Stop where
  | help
  | version
  | fault (fault : UsageFault)
  deriving DecidableEq

/-- The options met so far. -/
structure Given where
  text : Option String
  file : Option Path
  lexicon : Option Path
  extra : Option Path
  format : Option Format
  tokens : Bool
  verbose : Bool
  deriving DecidableEq

namespace Given

/-- No option met. -/
def empty : Given := ⟨none, none, none, none, none, false, false⟩

/-- Takes an operand. -/
def takeOperand (g : Given) (word : Bytes) : Except Stop Given :=
  match g.text, decode? word with
  | some _, _ => .error (.fault .unknownArgument)
  | none, none => .error (.fault .invalidUtf8)
  | none, some text => .ok { g with text := some text }

/-- Takes an option without a value. -/
def takeFlag (g : Given) : Flag → Except Stop Given
  | .tokens => if g.tokens then .error (.fault .conflict) else .ok { g with tokens := true }
  | .verbose => if g.verbose then .error (.fault .conflict) else .ok { g with verbose := true }
  | .help => .error .help
  | .version => .error .version

/-- The value of a path option that may have been given before. -/
def takePath (before : Option Path) (value : Bytes) : Except Stop Path :=
  if before.isSome then .error (.fault .conflict)
  else if value.isEmpty then .error (.fault .invalidValue)
  else .ok value

/-- The value of the format option that may have been given before. -/
def takeFormat (before : Option Format) (value : Bytes) : Except Stop Format :=
  if before.isSome then .error (.fault .conflict)
  else
    match Format.ofName? value with
    | none => .error (.fault .invalidValue)
    | some format => .ok format

/-- Takes an option with its value. -/
def takeSetting (g : Given) (setting : Setting) (value : Bytes) : Except Stop Given :=
  match setting with
  | .file => (takePath g.file value).map fun p => { g with file := some p }
  | .lexicon => (takePath g.lexicon value).map fun p => { g with lexicon := some p }
  | .extra => (takePath g.extra value).map fun p => { g with extra := some p }
  | .format => (takeFormat g.format value).map fun f => { g with format := some f }

/-- The configuration that the options ask for. -/
def config (g : Given) : Except Stop Config :=
  let config (input : Input) : Config :=
    ⟨input, ⟨g.lexicon, g.extra⟩, g.format.getD .text, g.tokens, g.verbose⟩
  match g.text, g.file with
  | some _, some _ => .error (.fault .conflict)
  | none, none => .error (.fault .missingInput)
  | some text, none => .ok (config (.text text))
  | none, some path => .ok (config (.file path))

end Given

/-- The kinds of words. -/
inductive WordShape where
  | operand
  | terminator
  | long (name : Bytes) (value : Option Bytes)
  | letters (letters : Bytes)
  deriving DecidableEq

/-- The parts of a long option: what stands before the first `=`, and what after it. -/
def splitValue (word : Bytes) : Bytes × Option Bytes :=
  match word.dropWhile (· != 61) with
  | [] => (word, none)
  | _ :: value => (word.takeWhile (· != 61), some value)

/-- The kind of a word. -/
def WordShape.of (word : Bytes) : WordShape :=
  match word with
  | [45, 45] => .terminator
  | 45 :: 45 :: rest => .long (splitValue rest).1 (splitValue rest).2
  | 45 :: letter :: rest => .letters (letter :: rest)
  | _ => .operand

/-- What the next word is taken for. -/
inductive Expecting where
  /-- Anything. -/
  | word
  /-- The value of an option. -/
  | value (setting : Setting)
  /-- An operand, whatever it looks like. -/
  | operand
  deriving DecidableEq

/-- A point in the reading of a command line. -/
structure Scan where
  given : Given
  expecting : Expecting
  deriving DecidableEq

namespace Scan

/-- The value of a letter in its own word. -/
def letterValue (rest : Bytes) : Bytes :=
  match rest with
  | 61 :: value => value
  | value => value

/-- Takes the letters of a word. -/
def takeLetters (g : Given) : Bytes → Except Stop Scan
  | [] => .ok ⟨g, .word⟩
  | letter :: rest =>
    match CommandOption.ofLetter? letter with
    | none => .error (.fault .unknownArgument)
    | some (.flag flag) =>
      match g.takeFlag flag with
      | .error stop => .error stop
      | .ok g => takeLetters g rest
    | some (.setting setting) =>
      if rest.isEmpty then .ok ⟨g, .value setting⟩
      else (g.takeSetting setting (letterValue rest)).map (⟨·, .word⟩)

/-- Takes a long option. -/
def takeLong (g : Given) (name : Bytes) (value : Option Bytes) : Except Stop Scan :=
  match CommandOption.ofName? name, value with
  | none, _ => .error (.fault .unknownArgument)
  | some (.flag _), some _ => .error (.fault .tooManyValues)
  | some (.flag flag), none => (g.takeFlag flag).map (⟨·, .word⟩)
  | some (.setting setting), some value => (g.takeSetting setting value).map (⟨·, .word⟩)
  | some (.setting setting), none => .ok ⟨g, .value setting⟩

/-- Takes the next word. -/
def take (s : Scan) (word : Bytes) : Except Stop Scan :=
  match s.expecting, WordShape.of word with
  | .operand, _ => (s.given.takeOperand word).map (⟨·, .operand⟩)
  | .value setting, .operand => (s.given.takeSetting setting word).map (⟨·, .word⟩)
  | .value _, _ => .error (.fault .invalidValue)
  | .word, .operand => (s.given.takeOperand word).map (⟨·, .word⟩)
  | .word, .terminator => .ok ⟨s.given, .operand⟩
  | .word, .long name value => takeLong s.given name value
  | .word, .letters letters => takeLetters s.given letters

/-- Why words cannot be taken at all, whatever was given before: the first is an option that is not
known or has a value that it does not take, or an operand that is there already. -/
def obstacle? (hasText : Bool) : List Bytes → Option UsageFault
  | [] => none
  | word :: words =>
    match WordShape.of word with
    | .operand => if hasText then some .unknownArgument else none
    | .terminator => if hasText && !words.isEmpty then some .unknownArgument else none
    | .long name value =>
      match CommandOption.ofName? name, value with
      | none, _ => some .unknownArgument
      | some (.flag _), some _ => some .tooManyValues
      | _, _ => none
    | .letters (letter :: _) =>
      if (CommandOption.ofLetter? letter).isNone then some .unknownArgument else none
    | .letters [] => none

/-- What is told about a word that is refused, with the words after it. The word of an option tells
its fault at once. For a value that is missing, the words from this one on are those that come after
the option. -/
def told (s : Scan) (word : Bytes) (words : List Bytes) (stop : Stop) : Stop :=
  let hasText := s.given.text.isSome
  let obstacle := match s.expecting, WordShape.of word with
    | .value _, .operand => obstacle? hasText words
    | .value _, _ => obstacle? hasText (word :: words)
    | .word, .operand => if hasText then none else obstacle? true words
    | .word, _ => none
    | .operand, _ => if words.isEmpty then none else some .unknownArgument
  obstacle.elim stop .fault

/-- Takes all words. -/
def takeAll (s : Scan) : List Bytes → Except Stop Scan
  | [] => .ok s
  | word :: words =>
    match s.take word with
    | .error stop => .error (s.told word words stop)
    | .ok s => s.takeAll words

/-- The configuration after the last word. -/
def finish (s : Scan) : Except Stop Config :=
  match s.expecting with
  | .value _ => .error (.fault .invalidValue)
  | _ => s.given.config

end Scan

/-- The configuration that the words of a command line ask for. -/
def Config.ofArguments (words : List Bytes) : Except Stop Config :=
  match Scan.takeAll ⟨.empty, .word⟩ words with
  | .error stop => .error stop
  | .ok scan => scan.finish

end Concord
