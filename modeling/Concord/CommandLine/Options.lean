import Concord.Checker

/-!
# Options

What a run of the program is asked to do, and the options that ask for it. An option has a long
name, and most have a letter too.
-/

namespace Concord

open Text

/-- What is checked: a text, or every line of a file. -/
inductive Input where
  | text (text : String)
  | file (path : Path)
  deriving DecidableEq

/-- How results are written. -/
inductive Format where
  | text
  | json
  deriving DecidableEq

/-- What a run of the program is asked to do. -/
structure Config where
  input : Input
  sources : Sources
  format : Format
  tokens : Bool
  verbose : Bool
  deriving DecidableEq

/-- An option without a value. -/
inductive Flag where
  | tokens
  | verbose
  | help
  | version
  deriving DecidableEq

/-- An option with a value. -/
inductive Setting where
  | file
  | lexicon
  | extra
  | format
  deriving DecidableEq

/-- An option of the command line. -/
inductive CommandOption where
  | flag (flag : Flag)
  | setting (setting : Setting)
  deriving DecidableEq

namespace CommandOption

/-- The long names. -/
def longNames : List (Bytes × CommandOption) :=
  [(encode "file", setting .file), (encode "lexicon", setting .lexicon),
    (encode "custom-dict", setting .extra), (encode "format", setting .format),
    (encode "tokens", flag .tokens), (encode "verbose", flag .verbose),
    (encode "help", flag .help), (encode "version", flag .version)]

/-- The letters: `f`, `d`, `t`, `v`, `h` and `V`. -/
def letters : List (UInt8 × CommandOption) :=
  [(102, setting .file), (100, setting .extra), (116, flag .tokens), (118, flag .verbose),
    (104, flag .help), (86, flag .version)]

/-- The option of a long name. Names are not abbreviated. -/
def ofName? (name : Bytes) : Option CommandOption := longNames.lookup name

/-- The option of a letter. -/
def ofLetter? (letter : UInt8) : Option CommandOption := letters.lookup letter

end CommandOption

/-- The format of a name. -/
def Format.ofName? (name : Bytes) : Option Format :=
  if name = encode "text" then some .text
  else if name = encode "json" then some .json
  else none

end Concord
