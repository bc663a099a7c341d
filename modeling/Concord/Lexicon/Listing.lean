import Concord.Files
import Concord.Lexicon.Trie

/-!
# Lexicon files

A lexicon file lists one word a line, as `word|category|number`; the number may be left out and then
means any number. Blank lines and lines that start with `#` are passed over, and blanks around the
line and around each field do not count.

Words are entered line by line until the first bad line; those before it stay entered.
-/

namespace Concord

open Text

/-- Why a line of a lexicon file gives no entry. -/
inductive LineFault where
  | unreadable (cause : ReadFailure)
  | malformed (content : String)
  | unknownCategory (value : String)
  | unknownNumber (value : String)
  deriving DecidableEq

/-- Why a lexicon file cannot be loaded. -/
inductive LoadError where
  | cannotOpen (path : Path) (cause : OpenFailure)
  | badLine (number : Nat) (fault : LineFault)
  deriving DecidableEq

/-- The text shown for a fault in the line of the given number. -/
def LineFault.message (line : Nat) : LineFault → String
  | unreadable cause => s!"Error leyendo línea {line}: {cause.message}"
  | malformed content =>
    s!"Línea {line}: formato esperado 'palabra|categoría|número', se encontró '{content}'"
  | unknownCategory value => s!"Línea {line}: categoría desconocida '{value}'"
  | unknownNumber value => s!"Línea {line}: número desconocido '{value}'"

/-- The text shown for an error. -/
def LoadError.message : LoadError → String
  | cannotOpen path cause =>
    s!"No se pudo abrir el archivo '{decodeLossy path}': {cause.message}"
  | badLine number fault => fault.message number

namespace Listing

/-- The fields of a line, without the blanks around them. -/
def fields (line : List Char) : List String :=
  (pieces (· == '|') line).map fun field => .ofList (trim field)

/-- The entry written in a line: a word, its category, and its number or nothing. -/
def readEntry (line : List Char) : Except LineFault (String × Entry) :=
  match fields line with
  | [word, category] => entry word category "ANY"
  | [word, category, number] => entry word category number
  | _ => .error (.malformed (.ofList line))
where
  entry (word category number : String) : Except LineFault (String × Entry) :=
    if word = "" then .error (.malformed (.ofList line))
    else
      match Category.ofCode? category, Number.ofCode? number with
      | none, _ => .error (.unknownCategory category)
      | some _, none => .error (.unknownNumber number)
      | some c, some n => .ok (word, ⟨c, n⟩)

/-- The entry of a line, or nothing for a line that is passed over. -/
def readLine (line : String) : Except LineFault (Option (String × Entry)) :=
  match trim line.toList with
  | [] => .ok none
  | '#' :: _ => .ok none
  | line => (readEntry line).map some

end Listing

/-- What loading leaves: the lexicon, and the number of entries or the error that ended it. -/
structure Loading where
  trie : Trie
  outcome : Except LoadError Nat

namespace Trie

/-- Enters the words of some lines, the first of which has the given number. -/
def appendLines (t : Trie) (number : Nat) : List (Except ReadFailure String) → Loading
  | [] => ⟨t, .ok 0⟩
  | .error cause :: _ => ⟨t, .error (.badLine number (.unreadable cause))⟩
  | .ok line :: rest =>
    match Listing.readLine line with
    | .error fault => ⟨t, .error (.badLine number fault)⟩
    | .ok none => t.appendLines (number + 1) rest
    | .ok (some (word, entry)) =>
      let loading := (t.insert word entry).appendLines (number + 1) rest
      { loading with outcome := loading.outcome.map (· + 1) }

/-- Enters the words listed in the content of a file. -/
def append (t : Trie) (content : Bytes) : Loading := t.appendLines 1 (FileNode.linesOf content)

/-- Enters the words listed in the file under a path. -/
def appendFile (t : Trie) (files : FileSystem) (path : Path) : Loading :=
  match files path with
  | .error cause => ⟨t, .error (.cannotOpen path cause)⟩
  | .ok node => t.appendLines 1 node.lines

end Trie

end Concord
