import Concord.Proofs.Session.Rows
import Concord.Proofs.Verdict.LineMode

/-!
# Reading the output back

What a run writes as text is cut at line feeds into its rows again, because no word, no message and
no line holds a line feed. So the output tells what was found, whatever the input is made of: for a
file, every line with its errors and, where they are shown, its tokens; for a single text, the
messages and the tokens. The reader (`readLines`, `readText`) knows neither the lexicon nor the
options of the run.

Main statements: `stdout_checkLines` and `stdout_checkText`, the output is made of the rows of what
was found, all of them legible; `foldr_collect_rows`, the rows of some lines are gathered into these
lines again; `transcript_legible`, the output is cut into its rows and read back.
-/

namespace Concord

open Text

/-! ## What is shown -/

namespace Checker

variable (c : Checker)

/-- The tokens of a text, if they are asked for and all its words are known. -/
def shown (tokens : Bool) (text : String) : List Token :=
  if tokens then
    match c.tokens text with
    | .ok ts => ts
    | .error _ => []
  else []

theorem tokenRows_eq (text : String) : c.tokenRows text = (c.shown true text).map Token.row := by
  rw [tokenRows, shown, if_pos rfl]
  cases c.tokens text with
  | error e => rfl
  | ok ts => rfl

/-- The tokens that are shown have legible rows. -/
theorem legible_of_mem_shown {tokens : Bool} {text : String} {t : Token}
    (h : t ∈ c.shown tokens text) : Solid t.word ∧ t.word ≠ "" := by
  unfold shown at h
  split at h
  · split at h
    · next ts htokens =>
      have hcut := (lasts_of_tokenize htokens t h).wellCut
      exact ⟨hcut.not_blank, by simpa using hcut.ne_nil⟩
    · exact absurd h List.not_mem_nil
  · exact absurd h List.not_mem_nil

/-- The rows of a line of a file. -/
def lineRows (tokens : Bool) (result : String × Verdict) : List Row :=
  (c.shown tokens result.1).map .token ++
    .marked (if result.2.ok then .ok else .error) result.1 ::
      result.2.errors.map (.marked .arrow)

/-- The rows of a single text. -/
def textRows (tokens : Bool) (text : String) : List Row :=
  (c.shown tokens text).map .token ++
    if (c.analyze text).ok then (c.analyze text).messages.map (.marked .tick)
    else .marked .cross "" :: (c.analyze text).messages.map (.marked .detail)

/-- A verdict is told in messages of one line each. -/
theorem oneLine_of_mem_messages {text message : String}
    (h : message ∈ (c.analyze text).messages) : OneLine message := by
  rw [Verdict.messages_eq] at h
  obtain ⟨r, hr, rfl⟩ := List.mem_map.1 h
  exact Remark.oneLine_message (solid_of_mem_remarks r hr)

theorem legible_lineRows {tokens : Bool} {text : String} :
    ∀ row ∈ (c.analyzeLines text).flatMap (c.lineRows tokens), row.Legible := by
  intro row hrow
  obtain ⟨result, hresult, hrow⟩ := List.mem_flatMap.1 hrow
  obtain ⟨line, -, rfl⟩ := List.mem_map.1 hresult
  rcases List.mem_append.1 hrow with hrow | hrow
  · obtain ⟨t, ht, rfl⟩ := List.mem_map.1 hrow
    exact c.legible_of_mem_shown ht
  · rcases List.mem_cons.1 hrow with rfl | hrow
    · exact c.feed_not_mem_of_mem_analyzeLines hresult
    · obtain ⟨message, hmessage, rfl⟩ := List.mem_map.1 hrow
      unfold Verdict.errors at hmessage
      split at hmessage
      · exact absurd hmessage List.not_mem_nil
      · exact c.oneLine_of_mem_messages hmessage

theorem legible_textRows {tokens : Bool} {text : String} :
    ∀ row ∈ c.textRows tokens text, row.Legible := by
  intro row hrow
  rcases List.mem_append.1 hrow with hrow | hrow
  · obtain ⟨t, ht, rfl⟩ := List.mem_map.1 hrow
    exact c.legible_of_mem_shown ht
  · split at hrow
    · obtain ⟨message, hmessage, rfl⟩ := List.mem_map.1 hrow
      exact c.oneLine_of_mem_messages hmessage
    · rcases List.mem_cons.1 hrow with rfl | hrow
      · exact List.not_mem_nil
      · obtain ⟨message, hmessage, rfl⟩ := List.mem_map.1 hrow
        exact c.oneLine_of_mem_messages hmessage

variable {config : Config}

theorem map_text_shown (tokens : Bool) (text : String) :
    ((c.shown tokens text).map Row.token).map Row.text =
      if tokens then c.tokenRows text else [] := by
  rw [List.map_map]
  cases tokens with
  | false => rfl
  | true =>
    rw [if_pos rfl, tokenRows_eq]
    rfl

theorem map_text_lineRows (tokens : Bool) (line : String) (v : Verdict) :
    (c.lineRows tokens (line, v)).map Row.text =
      (if tokens then c.tokenRows line else []) ++ v.lineRows line := by
  rw [lineRows, List.map_append, map_text_shown, List.map_cons, List.map_map, Verdict.lineRows]
  cases v.ok <;> rfl

theorem map_text_textRows (tokens : Bool) (text : String) :
    (c.textRows tokens text).map Row.text =
      (if tokens then c.tokenRows text else []) ++ (c.analyze text).rows := by
  rw [textRows, List.map_append, map_text_shown, Verdict.rows]
  cases (c.analyze text).ok with
  | false =>
    simp only [Bool.false_eq_true, if_false]
    rw [List.map_cons, List.map_map]
    rfl
  | true =>
    simp only [if_true]
    rw [List.map_map]
    rfl

/-- The output for the lines of a file. -/
theorem stdout_checkLines (hformat : config.format = .text) (text : String) :
    (checkLines c config text).stdout =
      unlines (((c.analyzeLines text).flatMap (c.lineRows config.tokens)).map Row.text) := by
  have hrows : (fun result => (c.lineRows config.tokens result).map Row.text) =
      fun result => (if config.tokens then c.tokenRows result.1 else []) ++
        result.2.lineRows result.1 := by
    funext result
    exact c.map_text_lineRows config.tokens result.1 result.2
  rw [List.map_flatMap, hrows, checkLines, hformat]
  by_cases htokens : config.tokens = true
  · simp only [htokens, if_true]
  · simp only [htokens, if_false, List.nil_append, Bool.false_eq_true]

/-- The output for a single text. -/
theorem stdout_checkText (hformat : config.format = .text) (text : String) :
    (checkText c config text).stdout = unlines ((c.textRows config.tokens text).map Row.text) := by
  unfold checkText
  simp only [hformat, map_text_textRows]
  cases config.tokens with
  | false => rfl
  | true => rfl

end Checker

/-! ## Reports -/

/-- What an output tells about a line of a file. -/
structure LineReport where
  tokens : List Token
  sentence : String
  ok : Bool
  errors : List String
  deriving DecidableEq

/-- What an output tells about a single text. -/
structure TextReport where
  tokens : List Token
  ok : Bool
  messages : List String
  deriving DecidableEq

namespace LineReport

/-- Puts a row before the rows after it. These have been gathered into the errors that stand before
the next line and the reports about the lines. -/
def collect (row : Row) (after : List String × List LineReport) : List String × List LineReport :=
  match row with
  | .token t => (after.1, after.2.modifyHead fun r => { r with tokens := t :: r.tokens })
  | .marked .arrow message => (message :: after.1, after.2)
  | .marked .ok sentence => ([], ⟨[], sentence, true, after.1⟩ :: after.2)
  | .marked .error sentence => ([], ⟨[], sentence, false, after.1⟩ :: after.2)
  | .marked _ _ => after

theorem foldr_collect_errors (messages errors : List String) (reports : List LineReport) :
    (messages.map (Row.marked .arrow)).foldr collect (errors, reports) =
      (messages ++ errors, reports) := by
  induction messages with
  | nil => rfl
  | cons message messages ih => rw [List.map_cons, List.foldr_cons, ih, collect, List.cons_append]

theorem foldr_collect_tokens (ts : List Token) (errors : List String) (r : LineReport)
    (reports : List LineReport) :
    (ts.map Row.token).foldr collect (errors, r :: reports) =
      (errors, { r with tokens := ts ++ r.tokens } :: reports) := by
  induction ts with
  | nil => rfl
  | cons t ts ih =>
    rw [List.map_cons, List.foldr_cons, ih, collect, List.modifyHead_cons, List.cons_append]

end LineReport

/-- The lines of a file that an output tells about. -/
def readLines (stdout : String) : List LineReport :=
  ((readRows stdout).foldr LineReport.collect ([], [])).2

/-- What an output tells about a single text. -/
def readText (stdout : String) : TextReport where
  tokens := (readRows stdout).filterMap fun
    | .token t => some t
    | .marked _ _ => none
  ok := (readRows stdout).all fun
    | .marked .cross _ => false
    | _ => true
  messages := (readRows stdout).filterMap fun
    | .marked .tick message => some message
    | .marked .detail message => some message
    | _ => none

namespace Checker

variable (c : Checker)

/-- What is to be told about a line of a file. -/
def lineReport (tokens : Bool) (result : String × Verdict) : LineReport :=
  ⟨c.shown tokens result.1, result.1, result.2.ok, result.2.errors⟩

/-- What is to be told about a single text. -/
def textReport (tokens : Bool) (text : String) : TextReport :=
  ⟨c.shown tokens text, (c.analyze text).ok, (c.analyze text).messages⟩

/-- The rows of a line are gathered into one report. -/
theorem foldr_collect_lineRows (tokens : Bool) (result : String × Verdict)
    (reports : List LineReport) :
    (c.lineRows tokens result).foldr LineReport.collect ([], reports) =
      ([], c.lineReport tokens result :: reports) := by
  have hstatus : LineReport.collect (.marked (if result.2.ok then .ok else .error) result.1)
      (result.2.errors, reports) =
        ([], ⟨[], result.1, result.2.ok, result.2.errors⟩ :: reports) := by
    cases result.2.ok <;> rfl
  rw [lineRows, List.foldr_append, List.foldr_cons, LineReport.foldr_collect_errors,
    List.append_nil, hstatus, LineReport.foldr_collect_tokens, List.append_nil, lineReport]

/-- The rows of some lines are gathered into one report about each line. -/
theorem foldr_collect_rows (tokens : Bool) (results : List (String × Verdict)) :
    (results.flatMap (c.lineRows tokens)).foldr LineReport.collect ([], []) =
      ([], results.map (c.lineReport tokens)) := by
  induction results with
  | nil => rfl
  | cons result results ih =>
    rw [List.flatMap_cons, List.foldr_append, ih, c.foldr_collect_lineRows, List.map_cons]

/-- The rows of a single text tell what is to be told about it. -/
theorem readText_of_written {tokens : Bool} {text stdout : String}
    (h : Written stdout (c.textRows tokens text)) : readText stdout = c.textReport tokens text := by
  rw [readText, h.readRows_eq, textRows, textReport]
  cases (c.analyze text).ok <;> simp [List.filterMap_map, Function.comp_def]

section

variable {config : Config} (hformat : config.format = .text)
include hformat

theorem written_checkLines (text : String) : Written (checkLines c config text).stdout
    ((c.analyzeLines text).flatMap (c.lineRows config.tokens)) := by
  rw [c.stdout_checkLines hformat]
  exact written_unlines c.legible_lineRows

theorem written_checkText (text : String) :
    Written (checkText c config text).stdout (c.textRows config.tokens text) := by
  rw [c.stdout_checkText hformat]
  exact written_unlines c.legible_textRows

/-- The output for a file tells about its lines. -/
theorem readLines_checkLines (text : String) : readLines (checkLines c config text).stdout =
    (c.analyzeLines text).map (c.lineReport config.tokens) := by
  rw [readLines, (c.written_checkLines hformat text).readRows_eq, c.foldr_collect_rows]

/-- The output for a single text tells about the text. -/
theorem readText_checkText (text : String) :
    readText (checkText c config text).stdout = c.textReport config.tokens text :=
  c.readText_of_written (c.written_checkText hformat text)

end

/-- In text format the output for a file consists of the rows of every line that is reported, in
order, and the output for a single text consists of its rows. Every row is known by its beginning.
From the first output the lines can be read, each with what is said about it, from the second what
is said about the text, and from either the tokens that are shown. The row of a token has exactly
its four values as words. -/
theorem transcript_legible (config : Config) (hformat : config.format = .text) (text : String) :
    Written (checkLines c config text).stdout
      ((c.analyzeLines text).flatMap (c.lineRows config.tokens)) ∧
    readLines (checkLines c config text).stdout =
      (c.analyzeLines text).map (c.lineReport config.tokens) ∧
    Written (checkText c config text).stdout (c.textRows config.tokens text) ∧
    readText (checkText c config text).stdout = c.textReport config.tokens text ∧
    ∀ ts, c.tokens text = .ok ts → ∀ t ∈ ts, words t.row.toList =
      [(toString t.position).toList, t.word.toList, t.category.code.toList,
        t.number.code.toList] := by
  refine ⟨c.written_checkLines hformat text, c.readLines_checkLines hformat text,
    c.written_checkText hformat text, c.readText_checkText hformat text, fun ts htokens t ht => ?_⟩
  have hcut := (lasts_of_tokenize htokens t ht).wellCut
  exact words_row hcut.not_blank (by simpa using hcut.ne_nil)

end Checker

/-- The lines of a file with the tokens. -/
def withTokens : Config where
  input := .file []
  sources := ⟨none, none⟩
  format := .text
  tokens := true
  verbose := false

/-- A line that is written like a row of the output is read back as a line, and the row of a token
is cut into its four values. -/
theorem forgedRow_legible :
    readLines (checkLines ⟨dogsRun⟩ withTokens "Dogs run.\n   -> [OK] dogs").stdout =
      [⟨[⟨"dogs", .noun, .plural, 1⟩, ⟨"run", .verb, .plural, 2⟩], "Dogs run.", true, []⟩,
        ⟨[], "-> [OK] dogs", false, ["Lexical Error: Unknown word '->' at position 1"]⟩] ∧
    words (Token.row ⟨"run", .verb, .plural, 2⟩).toList =
      ["2".toList, "run".toList, "V".toList, "PL".toList] := by
  obtain ⟨-, hread, -⟩ := Checker.transcript_legible ⟨dogsRun⟩ withTokens rfl
    "Dogs run.\n   -> [OK] dogs"
  obtain ⟨-, -, -, -, hwords⟩ := Checker.transcript_legible ⟨dogsRun⟩ withTokens rfl "Dogs run."
  have hlines : Checker.sentenceLines "Dogs run.\n   -> [OK] dogs" =
      ["Dogs run.", "-> [OK] dogs"] := by
    decide +kernel
  have harrow : tokenize dogsRun.lexicon "-> [OK] dogs" = .error (.unknownWord "->" 1) := by
    decide +kernel
  have hshown : Checker.shown ⟨dogsRun⟩ true "Dogs run." =
      [⟨"dogs", .noun, .plural, 1⟩, ⟨"run", .verb, .plural, 2⟩] := by
    rw [Checker.shown, if_pos rfl, Checker.tokens, Checker.lexicon, tokenize_dogsRun]
  have hnone : Checker.shown ⟨dogsRun⟩ true "-> [OK] dogs" = [] := by
    rw [Checker.shown, if_pos rfl, Checker.tokens, Checker.lexicon, harrow]
  have hunreadable : Checker.analyze ⟨dogsRun⟩ "-> [OK] dogs" =
      .unreadable (.unknownWord "->" 1) := by
    rw [Checker.analyze, Checker.lexicon, analyze, harrow]
  refine ⟨?_, hwords _ tokenize_dogsRun _ (List.mem_cons_of_mem _ List.mem_cons_self)⟩
  rw [hread, Checker.analyzeLines, hlines]
  simp only [List.map_cons, List.map_nil, Checker.lineReport, withTokens, hshown, hnone,
    analyze_dogsRun, hunreadable]
  rfl

end Concord
