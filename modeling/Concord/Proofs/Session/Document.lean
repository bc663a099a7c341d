import Concord.Proofs.Json.Reading
import Concord.Proofs.Session.Transcript

/-!
# The output as a document

A run that writes JSON writes one document and a line feed. It is the text of one value, so reading
it gives that value back, and from its fields everything that was found: for a file, every line with
its verdict and its messages; for a single text, the verdict and the messages. Words and lines may
hold any characters, since the text of a string can be read whatever the string is.

The reader (`readDocumentLines?`, `readDocumentText?`) finds the fields of an object by their names.

Main statements: `stdout_checkLines_json` and `stdout_checkText_json`, the output is the text of a
value; `document_decodes`, the document is decoded into what was found.
-/

namespace Concord

/-! ## Fields -/

namespace Json

/-- The value of the field with a name. -/
def field? (name : String) : Json → Option Json
  | object fields => fields.lookup name
  | _ => none

/-- The truth value that a value is. -/
def bool? : Json → Option Bool
  | bool value => some value
  | _ => none

/-- The string that a value is. -/
def string? : Json → Option String
  | string value => some value
  | _ => none

/-- The items of an array. -/
def array? : Json → Option (List Json)
  | array items => some items
  | _ => none

theorem mapM_string? (texts : List String) : (texts.map string).mapM string? = some texts := by
  rw [List.mapM_map]
  exact List.mapM_pure.trans (by simp)

end Json

/-- What an object tells about a text. -/
def TextReport.ofJson? (j : Json) : Option TextReport := do
  let ok ← (← j.field? "ok").bool?
  let messages ← (← (← j.field? "messages").array?).mapM Json.string?
  some ⟨[], ok, messages⟩

/-- The line that an object is about, and what it tells about it. -/
def TextReport.ofLineJson? (j : Json) : Option (String × TextReport) := do
  let line ← (← j.field? "sentence").string?
  let report ← TextReport.ofJson? j
  some (line, report)

/-- What an output tells about a single text, if it is a document. -/
def readDocumentText? (stdout : String) : Option TextReport :=
  (Json.decode? stdout).bind TextReport.ofJson?

/-- The lines of a file that an output tells about, if it is a document. -/
def readDocumentLines? (stdout : String) : Option (List (String × TextReport)) := do
  (← (← Json.decode? stdout).array?).mapM TextReport.ofLineJson?

/-- What is to be told about a verdict. -/
def Verdict.report (v : Verdict) : TextReport := ⟨[], v.ok, v.messages⟩

theorem TextReport.ofJson?_of_fields {j : Json} {v : Verdict}
    (hok : j.field? "ok" = some (.bool v.ok))
    (hmessages : j.field? "messages" = some (.array (v.messages.map .string))) :
    ofJson? j = some v.report := by
  simp only [ofJson?, hok, hmessages, Json.bool?, Json.array?, Option.bind_eq_bind,
    Option.bind_some, Json.mapM_string?, Verdict.report]

theorem TextReport.ofJson?_fields (v : Verdict) : ofJson? (.object v.fields) = some v.report :=
  ofJson?_of_fields rfl rfl

theorem TextReport.ofLineJson?_lineJson (result : String × Verdict) :
    ofLineJson? (lineJson result) = some (result.1, result.2.report) := by
  have hsentence : (lineJson result).field? "sentence" = some (.string result.1) := rfl
  have hreport : ofJson? (lineJson result) = some result.2.report := ofJson?_of_fields rfl rfl
  simp only [ofLineJson?, hsentence, Json.string?, hreport, Option.bind_eq_bind, Option.bind_some]

theorem TextReport.mapM_ofLineJson? (results : List (String × Verdict)) :
    (results.map lineJson).mapM ofLineJson? =
      some (results.map fun result => (result.1, result.2.report)) := by
  rw [List.mapM_map, Function.comp_def]
  simp only [ofLineJson?_lineJson]
  exact List.mapM_pure

/-! ## Documents -/

/-- A text that is one document and a line feed is read as the value of the document. -/
theorem decode?_stdout {stdout : String} {j : Json} (h : stdout = j.render ++ "\n") :
    Json.decode? stdout = some j :=
  h ▸ Json.decode?_render_append j (List.forall_mem_singleton.2 rfl)

namespace Checker

variable (c : Checker) {config : Config}

/-- The output for the lines of a file. -/
theorem stdout_checkLines_json (hformat : config.format = .json) (text : String) :
    (checkLines c config text).stdout =
      (Json.array ((c.analyzeLines text).map lineJson)).render ++ "\n" := by
  simp only [checkLines, hformat]

/-- The output for a single text. -/
theorem stdout_checkText_json (hformat : config.format = .json) (text : String) :
    (checkText c config text).stdout = (Json.object (c.analyze text).fields).render ++ "\n" := by
  simp only [checkText, hformat]

theorem readDocumentLines?_checkLines (hformat : config.format = .json) (text : String) :
    readDocumentLines? (checkLines c config text).stdout =
      some ((c.analyzeLines text).map fun result => (result.1, result.2.report)) := by
  rw [readDocumentLines?, decode?_stdout (c.stdout_checkLines_json hformat text)]
  exact TextReport.mapM_ofLineJson? _

theorem readDocumentText?_checkText (hformat : config.format = .json) (text : String) :
    readDocumentText? (checkText c config text).stdout = some (c.analyze text).report := by
  rw [readDocumentText?, decode?_stdout (c.stdout_checkText_json hformat text)]
  exact TextReport.ofJson?_fields _

/-- In JSON format the output is one document and a line feed. For a file the document is an array
with one object for each line that is reported, in order; for a single text it is one object. The
fields hold what was found, and reading them by name gives it back. -/
theorem document_decodes (config : Config) (hformat : config.format = .json) (text : String) :
    (∃ document, (checkLines c config text).stdout = document ++ "\n" ∧
      Json.decode? document = some (.array ((c.analyzeLines text).map fun (line, v) =>
        .object [("sentence", .string line), ("ok", .bool v.ok),
          ("messages", .array (v.messages.map .string))]))) ∧
    readDocumentLines? (checkLines c config text).stdout =
      some ((c.analyzeLines text).map fun (line, v) => (line, ⟨[], v.ok, v.messages⟩)) ∧
    (∃ document, (checkText c config text).stdout = document ++ "\n" ∧
      Json.decode? document = some (.object [("ok", .bool (c.analyze text).ok),
        ("messages", .array ((c.analyze text).messages.map .string))])) ∧
    readDocumentText? (checkText c config text).stdout =
      some ⟨[], (c.analyze text).ok, (c.analyze text).messages⟩ :=
  ⟨⟨_, c.stdout_checkLines_json hformat text, Json.decode?_render _⟩,
    c.readDocumentLines?_checkLines hformat text,
    ⟨_, c.stdout_checkText_json hformat text, Json.decode?_render _⟩,
    c.readDocumentText?_checkText hformat text⟩

end Checker

/-- The lines of a file as a document. -/
def asDocument : Config := { withTokens with format := .json }

/-- A line of a quotation mark, a control character and a backslash is read back from a document. -/
theorem quotedLine_decodes :
    asDocument.format = .json ∧
    (∃ document,
      (checkLines ⟨dogsRun⟩ asDocument "Dogs run.\n \"\x01\\").stdout = document ++ "\n" ∧
      (Json.decode? document).isSome) ∧
    readDocumentLines? (checkLines ⟨dogsRun⟩ asDocument "Dogs run.\n \"\x01\\").stdout =
      some [("Dogs run.", ⟨[], true, ["Parsing successful."]⟩),
        ("\"\x01\\", ⟨[], false,
          ["Lexical Error: Unknown word '\"\x01\\' at position 1"]⟩)] := by
  obtain ⟨⟨document, hstdout, hdocument⟩, hread, -⟩ :=
    Checker.document_decodes ⟨dogsRun⟩ asDocument rfl "Dogs run.\n \"\x01\\"
  have hlines : Checker.sentenceLines "Dogs run.\n \"\x01\\" = ["Dogs run.", "\"\x01\\"] := by
    decide +kernel
  have hquoted : tokenize dogsRun.lexicon "\"\x01\\" = .error (.unknownWord "\"\x01\\" 1) := by
    decide +kernel
  have hunreadable : Checker.analyze ⟨dogsRun⟩ "\"\x01\\" =
      .unreadable (.unknownWord "\"\x01\\" 1) := by
    rw [Checker.analyze, Checker.lexicon, analyze, hquoted]
  refine ⟨rfl, ⟨document, hstdout, by rw [hdocument]; rfl⟩, ?_⟩
  rw [hread, Checker.analyzeLines, hlines]
  simp only [List.map_cons, List.map_nil, analyze_dogsRun, hunreadable]
  rfl

end Concord
