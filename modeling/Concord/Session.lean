import Concord.CommandLine.Arguments
import Concord.CommandLine.Help
import Concord.Json
import Concord.Text.Padding

/-!
# Sessions

One run of the program, from the words of its command line and the files it may open to its exit
status and its two outputs. Results go to the first output, in text or as JSON; notes about the run
go to the second. A run fails when its lexicon or its input cannot be read, and then it writes no
results; what the verdicts are makes no difference to its status. What is wrong with a command line
itself is told by its fault and not in the notes.
-/

namespace Concord

open Text

/-- What a run gives back. -/
structure Response where
  status : Nat
  stdout : String
  /-- The lines of the second output. -/
  notes : List String

/-- The second output. -/
def Response.stderr (r : Response) : String := unlines r.notes

/-! ## Results as text -/

/-- The column of positions. -/
def positionColumn : Column := ⟨' ', .right, 3, none⟩

/-- The column of words. -/
def wordColumn : Column := ⟨' ', .left, 12, none⟩

/-- The column of categories. -/
def categoryColumn : Column := ⟨' ', .left, 5, none⟩

/-- The row of a token: its position, word, category and number. -/
def Token.row (t : Token) : String :=
  "  " ++ positionColumn.set (toString t.position) ++ "  " ++ wordColumn.set t.word ++ " " ++
    categoryColumn.set t.category.code ++ " " ++ t.number.code

/-- The rows of a single text. -/
def Verdict.rows (v : Verdict) : List String :=
  if v.ok then v.messages.map ("✔ " ++ ·)
  else "✘ Invalid sentence." :: v.messages.map ("  Detail: " ++ ·)

/-- The rows of a line of a file. -/
def Verdict.lineRows (v : Verdict) (line : String) : List String :=
  ((if v.ok then "[OK] " else "[ERROR] ") ++ line) :: v.errors.map ("   -> " ++ ·)

namespace Checker

/-- The rows of the tokens of a text. -/
def tokenRows (c : Checker) (text : String) : List String :=
  match c.tokens text with
  | .ok tokens => tokens.map Token.row
  | .error _ => []

/-- The notes about a text whose tokens are asked for. -/
def tokenNotes (c : Checker) (text : String) : List String :=
  match c.tokens text with
  | .ok _ => []
  | .error e => ["Advertencia: " ++ e.message]

end Checker

/-! ## Results as JSON -/

/-- The fields of a verdict. -/
def Verdict.fields (v : Verdict) : List (String × Json) :=
  [("ok", .bool v.ok), ("messages", .array (v.messages.map .string))]

/-- A line of a file with its verdict. -/
def lineJson (result : String × Verdict) : Json :=
  .object (("sentence", .string result.1) :: result.2.fields)

/-! ## The run -/

/-- The notes about a new checker. -/
def Setup.notes (setup : Setup) (config : Config) : List String :=
  let size := setup.checker.trie.size
  let extra := match config.sources.extra, setup.added with
    | some path, some added =>
      [s!"Diccionario adicional '{decodeLossy path}': {added} entradas"]
    | _, _ => []
  let empty :=
    if size = 0 then ["Advertencia: el léxico cargado está vacío."] else []
  let active := [s!"Léxico activo: {size} palabras"]
  if config.verbose then extra ++ empty ++ active else empty

/-- The results for one text. -/
def checkText (checker : Checker) (config : Config) (text : String) : Response :=
  let verdict := checker.analyze text
  match config.format with
  | .json => ⟨0, (Json.object verdict.fields).render ++ "\n", []⟩
  | .text =>
    if config.tokens then
      ⟨0, unlines (checker.tokenRows text ++ verdict.rows), checker.tokenNotes text⟩
    else ⟨0, unlines verdict.rows, []⟩

/-- The results for the lines of a text. -/
def checkLines (checker : Checker) (config : Config) (text : String) : Response :=
  let results := checker.analyzeLines text
  let empty := if config.verbose ∧ results = [] then
      ["Advertencia: el archivo no contiene oraciones."]
    else []
  match config.format with
  | .json => ⟨0, (Json.array (results.map lineJson)).render ++ "\n", empty⟩
  | .text =>
    if config.tokens then
      ⟨0, unlines (results.flatMap fun (line, v) => checker.tokenRows line ++ v.lineRows line),
        empty ++ results.flatMap fun (line, _) => checker.tokenNotes line⟩
    else ⟨0, unlines (results.flatMap fun (line, v) => v.lineRows line), empty⟩

/-- Does what a configuration asks for. -/
def execute (files : FileSystem) (config : Config) : Response :=
  match Checker.build files config.sources with
  | .error e => ⟨1, "", [s!"Error inicializando verificador: {e.message}"]⟩
  | .ok setup =>
    let notes := setup.notes config
    match config.input with
    | .text text =>
      let response := checkText setup.checker config text
      { response with notes := notes ++ response.notes }
    | .file path =>
      match files.readText path with
      | .error e =>
        ⟨1, "", notes ++ [s!"Error leyendo archivo '{decodeLossy path}': {e.message}"]⟩
      | .ok text =>
        let response := checkLines setup.checker config text
        { response with notes := notes ++ response.notes }

/-- What a command line without a configuration gives back. The two texts that were asked for are
results; a command line without any input is answered with an empty note and the help text. A fault
is put into words by the program itself, before these notes. -/
def Stop.response : Stop → Response
  | help => ⟨0, helpText, []⟩
  | version => ⟨0, versionText, []⟩
  | fault .missingInput => ⟨1, helpText ++ "\n", [""]⟩
  | fault _ => ⟨1, "", []⟩

/-- One run of the program. -/
def respond (files : FileSystem) (words : List Bytes) : Response :=
  match Config.ofArguments words with
  | .error stop => stop.response
  | .ok config => execute files config

end Concord
