import Mathlib.Data.List.Flatten
import Concord.Folder
import Concord.Proofs.Lexicon.Layers
import Concord.Proofs.Session.Document
import Concord.Proofs.Text.Encoding
import Concord.Proofs.Verdict.Kinds

/-!
# Runs

How far a run gets depends on its files alone (`Reaches`). It fails if a file of its lexicon cannot
be loaded or its input file holds no text, and then it writes no results. Otherwise it succeeds,
whatever the verdicts are.

The options that ask for information make no difference to this. With `verbose` there are more notes
and nothing else is changed; in JSON format the tokens are not shown, so asking for them changes
nothing at all; and the two formats tell about the same lines.

Main statements: `execute_outcome`, when a run fails; `Checker.tellsText_checkText` and
`Checker.tellsLines_checkLines`, what is found can be read from the results in either format;
`execute_verbose`, `execute_tokens` and `readDocumentLines?_execute`, two runs that differ in one
option; `respond_runs`, the same for two command lines.
-/

namespace Concord

open Text

/-! ## Failure and success -/

/-- Why a run cannot check anything. -/
inductive Unready (files : FileSystem) (config : Config) : Prop
  /-- The lexicon file cannot be loaded. -/
  | lexicon {path : Path} {cause : LoadError} : config.sources.lexicon = some path →
      Loads files path (.error cause) → Unready files config
  /-- The additional file cannot be loaded. -/
  | extra {path : Path} {cause : LoadError} : config.sources.extra = some path →
      Loads files path (.error cause) → Unready files config
  /-- No text is under the path of the input. -/
  | input {path : Path} : config.input = .file path →
      (∀ text, files path ≠ .ok (.file (encode text))) → Unready files config

/-- How far a run gets with its files. -/
inductive Reaches (files : FileSystem) (sources : Sources) (input : Input) : Prop
  | noChecker {e : SetupError} : Checker.build files sources = .error e →
      Reaches files sources input
  | noInput {setup : Setup} {path : Path} {e : FileFailure} :
      Checker.build files sources = .ok setup → input = .file path →
      files.readText path = .error e → Reaches files sources input
  | text {setup : Setup} {text : String} : Checker.build files sources = .ok setup →
      input = .text text → Reaches files sources input
  | lines {setup : Setup} {path : Path} {text : String} :
      Checker.build files sources = .ok setup → input = .file path →
      files.readText path = .ok text → Reaches files sources input

theorem reaches (files : FileSystem) (sources : Sources) (input : Input) :
    Reaches files sources input := by
  cases hbuild : Checker.build files sources with
  | error e => exact .noChecker hbuild
  | ok setup =>
    cases input with
    | text text => exact .text hbuild rfl
    | file path =>
      cases hread : files.readText path with
      | error e => exact .noInput hbuild rfl hread
      | ok text => exact .lines hbuild rfl hread

section

variable {files : FileSystem} {config : Config} {setup : Setup} {path : Path} {text : String}

theorem readText_eq_ok_iff :
    files.readText path = .ok text ↔ files path = .ok (.file (encode text)) := by
  unfold FileSystem.readText
  cases files path with
  | error cause => simp
  | ok node =>
    cases node with
    | directory => simp [FileNode.text]
    | file content =>
      simp only [FileNode.text, FileNode.spell, Except.ok.injEq, FileNode.file.injEq]
      rw [eq_comm (a := content), ← decode?_eq_some_iff]
      cases decode? content <;> simp

theorem execute_noChecker {e : SetupError}
    (hbuild : Checker.build files config.sources = .error e) :
    execute files config = ⟨1, "", [s!"Error inicializando verificador: {e.message}"]⟩ := by
  simp only [execute, hbuild]

theorem execute_noInput {e : FileFailure}
    (hbuild : Checker.build files config.sources = .ok setup) (hinput : config.input = .file path)
    (hread : files.readText path = .error e) :
    execute files config = ⟨1, "", setup.notes config ++
      [s!"Error leyendo archivo '{decodeLossy path}': {e.message}"]⟩ := by
  simp only [execute, hbuild, hinput, hread]

theorem execute_text (hbuild : Checker.build files config.sources = .ok setup)
    (hinput : config.input = .text text) :
    execute files config = { checkText setup.checker config text with
      notes := setup.notes config ++ (checkText setup.checker config text).notes } := by
  simp only [execute, hbuild, hinput]

theorem execute_lines (hbuild : Checker.build files config.sources = .ok setup)
    (hinput : config.input = .file path) (hread : files.readText path = .ok text) :
    execute files config = { checkLines setup.checker config text with
      notes := setup.notes config ++ (checkLines setup.checker config text).notes } := by
  simp only [execute, hbuild, hinput, hread]

theorem status_checkText (c : Checker) : (checkText c config text).status = 0 := by
  unfold checkText
  split
  · rfl
  · split <;> rfl

theorem status_checkLines (c : Checker) : (checkLines c config text).status = 0 := by
  simp only [checkLines]
  split
  · rfl
  · split <;> rfl

theorem exists_build_error {cause : LoadError}
    (hpath : config.sources.lexicon = some path ∨ config.sources.extra = some path)
    (hloads : Loads files path (.error cause)) :
    ∃ e, Checker.build files config.sources = .error e := by
  cases hbuild : Checker.build files config.sources with
  | error e => exact ⟨e, rfl⟩
  | ok setup =>
    obtain ⟨entries, hright⟩ :=
      (Checker.layered_build files config.sources).exists_ok_iff.1 ⟨setup, hbuild⟩ path hpath
    exact absurd hloads hright.not_error

/-- A run fails if its checker cannot be set up or its input cannot be read. -/
theorem unready_iff : Unready files config ↔
    (∃ e, Checker.build files config.sources = .error e) ∨
      ∃ path e, config.input = .file path ∧ files.readText path = .error e := by
  constructor
  · intro h
    cases h with
    | lexicon hpath hloads => exact Or.inl (exists_build_error (Or.inl hpath) hloads)
    | extra hpath hloads => exact Or.inl (exists_build_error (Or.inr hpath) hloads)
    | @input path hinput hnone =>
      cases hread : files.readText path with
      | error e => exact Or.inr ⟨path, e, hinput, hread⟩
      | ok text => exact absurd (readText_eq_ok_iff.1 hread) (hnone text)
  · rintro (⟨e, hbuild⟩ | ⟨path, e, hinput, hread⟩)
    · cases e with
      | lexicon cause =>
        obtain ⟨path, hpath, hloads⟩ := (Checker.layered_build _ _).lexicon_iff cause |>.1 hbuild
        exact .lexicon hpath hloads
      | extra cause =>
        obtain ⟨-, path, hpath, hloads⟩ := (Checker.layered_build _ _).extra_iff cause |>.1 hbuild
        exact .extra hpath hloads
    · refine .input hinput fun text htext => ?_
      rw [readText_eq_ok_iff.2 htext] at hread
      exact nomatch hread

/-- A run that fails has status 1 and writes no results, and any other run has status 0. -/
theorem execute_outcome (files : FileSystem) (config : Config) :
    (Unready files config ∧ (execute files config).status = 1 ∧
      (execute files config).stdout = "") ∨
    (¬ Unready files config ∧ (execute files config).status = 0) := by
  rw [unready_iff]
  rcases reaches files config.sources config.input with
    hbuild | ⟨hbuild, hinput, hread⟩ | ⟨hbuild, hinput⟩ | ⟨hbuild, hinput, hread⟩
  · rw [execute_noChecker hbuild]
    exact Or.inl ⟨Or.inl ⟨_, hbuild⟩, rfl, rfl⟩
  · rw [execute_noInput hbuild hinput hread]
    exact Or.inl ⟨Or.inr ⟨_, _, hinput, hread⟩, rfl, rfl⟩
  · rw [execute_text hbuild hinput]
    refine Or.inr ⟨?_, status_checkText _⟩
    simp [hbuild, hinput]
  · rw [execute_lines hbuild hinput hread]
    refine Or.inr ⟨?_, status_checkLines _⟩
    simp [hbuild, hinput, hread]

/-- A run that does not fail checks its input. -/
theorem execute_ready (hready : ¬ Unready files config) :
    ∃ setup, Checker.build files config.sources = .ok setup ∧
      ((∃ text, config.input = .text text ∧
        execute files config = { checkText setup.checker config text with
          notes := setup.notes config ++ (checkText setup.checker config text).notes }) ∨
      ∃ path text, config.input = .file path ∧ files.readText path = .ok text ∧
        execute files config = { checkLines setup.checker config text with
          notes := setup.notes config ++ (checkLines setup.checker config text).notes }) := by
  rw [unready_iff, not_or, not_exists, not_exists] at hready
  obtain ⟨hchecker, hread⟩ := hready
  rcases reaches files config.sources config.input with
    hbuild | ⟨-, hinput, hread'⟩ | ⟨hbuild, hinput⟩ | ⟨hbuild, hinput, hread⟩
  · exact absurd hbuild (hchecker _)
  · exact absurd ⟨_, hinput, hread'⟩ (hread _)
  · exact ⟨_, hbuild, .inl ⟨_, hinput, execute_text hbuild hinput⟩⟩
  · exact ⟨_, hbuild, .inr ⟨_, _, hinput, hread, execute_lines hbuild hinput hread⟩⟩

end

/-! ## What a run tells -/

namespace Checker

variable (c : Checker) (config : Config) (text : String)

/-- An output tells in its format what is found about a text. -/
def TellsText (stdout : String) : Prop :=
  match config.format with
  | .text => readText stdout = c.textReport config.tokens text
  | .json => readDocumentText? stdout = some (c.analyze text).report

/-- An output tells in its format what is found about every line that is not blank. -/
def TellsLines (stdout : String) : Prop :=
  match config.format with
  | .text => readLines stdout = (c.analyzeLines text).map (c.lineReport config.tokens)
  | .json => readDocumentLines? stdout =
      some ((c.analyzeLines text).map fun result => (result.1, result.2.report))

theorem tellsText_checkText : c.TellsText config text (checkText c config text).stdout := by
  unfold TellsText
  cases hformat : config.format with
  | text => exact c.readText_checkText hformat text
  | json => exact c.readDocumentText?_checkText hformat text

theorem tellsLines_checkLines : c.TellsLines config text (checkLines c config text).stdout := by
  unfold TellsLines
  cases hformat : config.format with
  | text => exact c.readLines_checkLines hformat text
  | json => exact c.readDocumentLines?_checkLines hformat text

variable {c config text}

/-- An output that tells about a text is not empty, since there is always a message. -/
theorem TellsText.ne_empty {stdout : String} (h : c.TellsText config text stdout) :
    stdout ≠ "" := by
  rintro rfl
  cases hformat : config.format with
  | text =>
    rw [TellsText, hformat] at h
    have hnone : (c.analyze text).messages = [] := congrArg TextReport.messages h.symm
    obtain ⟨kind, hkind⟩ := exists_endsIn c.lexicon text
    exact hkind.messages_ne_nil hnone
  | json =>
    rw [TellsText, hformat] at h
    exact nomatch h

/-- An output that tells about lines is empty only if there are none. -/
theorem TellsLines.analyzeLines_eq_nil (h : c.TellsLines config text "") :
    c.analyzeLines text = [] := by
  cases hformat : config.format with
  | text =>
    rw [TellsLines, hformat] at h
    exact List.map_eq_nil_iff.1 h.symm
  | json =>
    rw [TellsLines, hformat] at h
    exact nomatch h

end Checker

/-! ## Two runs -/

/-- Nothing of the notes about a checker is lost with `verbose`. -/
theorem Setup.notes_sublist (setup : Setup) (config : Config) :
    (setup.notes { config with verbose := false }).Sublist
      (setup.notes { config with verbose := true }) := by
  simp only [Setup.notes, Bool.false_eq_true, if_false, if_true, List.append_assoc]
  exact (List.sublist_append_left _ _).trans (List.sublist_append_right _ _)

/-- The note about a file without lines is the only difference for the lines of a file. -/
theorem checkLines_verbose (c : Checker) (config : Config) (text : String) :
    (checkLines c { config with verbose := true } text).stdout =
      (checkLines c { config with verbose := false } text).stdout ∧
    (checkLines c { config with verbose := false } text).notes.Sublist
      (checkLines c { config with verbose := true } text).notes := by
  unfold checkLines
  simp only [Bool.false_eq_true, false_and, if_false]
  cases config.format with
  | json => simp
  | text => cases config.tokens <;> simp

/-- With `verbose` there are more notes, and that is all. -/
theorem execute_verbose (files : FileSystem) (config : Config) :
    (execute files { config with verbose := true }).status =
      (execute files { config with verbose := false }).status ∧
    (execute files { config with verbose := true }).stdout =
      (execute files { config with verbose := false }).stdout ∧
    (execute files { config with verbose := false }).notes.Sublist
      (execute files { config with verbose := true }).notes := by
  rcases reaches files config.sources config.input with
    hbuild | @⟨setup, path, e, hbuild, hinput, hread⟩ | @⟨setup, text, hbuild, hinput⟩ |
    @⟨setup, path, text, hbuild, hinput, hread⟩
  · have hrun (b : Bool) : execute files { config with verbose := b } = _ :=
      execute_noChecker hbuild
    rw [hrun, hrun]
    exact ⟨rfl, rfl, .refl _⟩
  · have hrun (b : Bool) : execute files { config with verbose := b } = _ :=
      execute_noInput hbuild hinput hread
    rw [hrun, hrun]
    exact ⟨rfl, rfl, (setup.notes_sublist config).append_right _⟩
  · have hrun (b : Bool) : execute files { config with verbose := b } = _ :=
      execute_text hbuild hinput
    have hsame (b : Bool) : checkText setup.checker { config with verbose := b } text =
        checkText setup.checker config text := rfl
    rw [hrun, hrun, hsame, hsame]
    exact ⟨rfl, rfl, (setup.notes_sublist config).append_right _⟩
  · have hrun (b : Bool) : execute files { config with verbose := b } = _ :=
      execute_lines hbuild hinput hread
    obtain ⟨hstdout, hnotes⟩ := checkLines_verbose setup.checker config text
    rw [hrun, hrun]
    exact ⟨by rw [status_checkLines, status_checkLines], hstdout,
      (setup.notes_sublist config).append hnotes⟩

/-- In JSON format no tokens are shown, so it makes no difference whether they are asked for. -/
theorem execute_tokens (files : FileSystem) {config : Config} (hformat : config.format = .json)
    (tokens : Bool) : execute files { config with tokens := tokens } = execute files config := by
  have htext (c : Checker) (text : String) :
      checkText c { config with tokens := tokens } text = checkText c config text := by
    simp only [checkText, hformat]
  have hlines (c : Checker) (text : String) :
      checkLines c { config with tokens := tokens } text = checkLines c config text := by
    simp only [checkLines, hformat]
  simp only [execute, htext, hlines]
  rfl

/-- The messages about a text that is not accepted. -/
def TextReport.errors (r : TextReport) : List String := if r.ok then [] else r.messages

/-- Both formats tell about the same lines, with the same verdicts and the same errors. -/
theorem readDocumentLines?_execute {files : FileSystem} {config : Config} {path : Path}
    (hinput : config.input = .file path) (hready : ¬ Unready files config) :
    ∃ found,
      readDocumentLines? (execute files { config with format := .json }).stdout = some found ∧
      (readLines (execute files { config with format := .text }).stdout).map
        (fun r => (r.sentence, r.ok, r.errors)) =
      found.map fun (line, r) => (line, r.ok, r.errors) := by
  obtain ⟨setup, hbuild, ⟨text, hinput', -⟩ | ⟨path, text, hinput, hread, -⟩⟩ :=
    execute_ready hready
  · exact nomatch hinput.symm.trans hinput'
  · have hrun (format : Format) : execute files { config with format := format } = _ :=
      execute_lines hbuild hinput hread
    refine ⟨(setup.checker.analyzeLines text).map fun result => (result.1, result.2.report), ?_, ?_⟩
    · rw [hrun]
      exact setup.checker.readDocumentLines?_checkLines rfl text
    · rw [hrun, setup.checker.readLines_checkLines rfl, List.map_map, List.map_map]
      rfl

/-- The lines of some notes are the lines of each. -/
theorem outputLines_notes (notes : List String) :
    outputLines (unlines notes) = notes.flatMap outputLines ++ [""] := by
  induction notes with
  | nil => rfl
  | cons note notes ih =>
    have htext : (unlines (note :: notes)).toList =
        note.toList ++ '\n' :: (unlines notes).toList := by
      simp [unlines]
    rw [outputLines, htext, pieces_append _ _ _ rfl, List.map_append, List.flatMap_cons,
      List.append_assoc, ← ih]
    rfl

/-- More notes, more lines. -/
theorem outputLines_stderr_sublist {r r' : Response} (h : r.notes.Sublist r'.notes) :
    (outputLines r.stderr).Sublist (outputLines r'.stderr) := by
  rw [Response.stderr, Response.stderr, outputLines_notes, outputLines_notes]
  exact (h.flatMap _).append_right _

theorem respond_eq_execute {words : List Bytes} {config : Config}
    (h : Config.ofArguments words = .ok config) (files : FileSystem) :
    respond files words = execute files config := by
  rw [respond, h]

/-- A run of an accepted command line has status 1 if it is unready, and then it writes no results;
any other run has status 0. Command lines that differ only in `verbose` have the same status and
results, and the lines of the notes of the quiet run are among those of the other, in order. In JSON
format, command lines that differ only in whether tokens are asked for have the same response. And
the two formats tell about the same lines of a file, with the same verdicts and errors. -/
theorem respond_runs (files : FileSystem) :
    (∀ (words : List Bytes) (config : Config), Config.ofArguments words = .ok config →
      ((respond files words).status = 1 ↔ Unready files config) ∧
      ((respond files words).status = 0 ↔ ¬ Unready files config) ∧
      (Unready files config → (respond files words).stdout = "")) ∧
    (∀ (quiet loud : List Bytes) (config : Config),
      Config.ofArguments quiet = .ok { config with verbose := false } →
      Config.ofArguments loud = .ok { config with verbose := true } →
      (respond files loud).status = (respond files quiet).status ∧
      (respond files loud).stdout = (respond files quiet).stdout ∧
      (outputLines (respond files quiet).stderr).Sublist
        (outputLines (respond files loud).stderr)) ∧
    (∀ (without given : List Bytes) (config : Config), config.format = .json →
      Config.ofArguments without = .ok { config with tokens := false } →
      Config.ofArguments given = .ok { config with tokens := true } →
      (respond files given).status = (respond files without).status ∧
      (respond files given).stdout = (respond files without).stdout ∧
      (respond files given).stderr = (respond files without).stderr) ∧
    ∀ (text json : List Bytes) (config : Config) (path : Path),
      config.input = .file path → ¬ Unready files config →
      Config.ofArguments text = .ok { config with format := .text } →
      Config.ofArguments json = .ok { config with format := .json } →
      ∃ found, readDocumentLines? (respond files json).stdout = some found ∧
        (readLines (respond files text).stdout).map (fun r => (r.sentence, r.ok, r.errors)) =
          found.map fun (line, r) => (line, r.ok, r.errors) := by
  refine ⟨fun words config hwords => ?_, fun quiet loud config hquiet hloud => ?_,
    fun without given config hformat hwithout hgiven => ?_,
    fun text json config path hinput hready htext hjson => ?_⟩
  · rw [respond_eq_execute hwords]
    rcases execute_outcome files config with ⟨hunready, hstatus, hstdout⟩ | ⟨hready, hstatus⟩
    · simp [hunready, hstatus, hstdout]
    · simp [hready, hstatus]
  · obtain ⟨hstatus, hstdout, hnotes⟩ := execute_verbose files config
    rw [respond_eq_execute hquiet, respond_eq_execute hloud]
    exact ⟨hstatus, hstdout, outputLines_stderr_sublist hnotes⟩
  · rw [respond_eq_execute hwithout, respond_eq_execute hgiven, execute_tokens files hformat false,
      execute_tokens files hformat true]
    exact ⟨rfl, rfl, rfl⟩
  · rw [respond_eq_execute htext, respond_eq_execute hjson]
    exact readDocumentLines?_execute hinput hready

/-! ## A run with its files -/

/-- A folder with a lexicon of two words and a file of two lines. -/
def petFolder : Folder :=
  ⟨[(encode "words", .file (encode "dogs|N|PL\nrun|V|PL\n")),
    (encode "lines", .file (encode "Dogs run.\n\nCats run.\n"))]⟩

/-- Checks the lines with the lexicon. -/
def petRun : Config := ⟨.file (encode "lines"), ⟨some (encode "words"), none⟩, .text, false, false⟩

/-- The words that ask for this, after some options. -/
def petWords (options : List String) : List Bytes :=
  (options ++ ["--lexicon=words", "-flines"]).map encode

theorem build_petRun : Checker.build petFolder.files petRun.sources = .ok ⟨⟨dogsRun⟩, none⟩ := by
  have hnode : petFolder.files (encode "words") =
      .ok (.file (encode "dogs|N|PL\nrun|V|PL\n")) := by
    decide
  have hlines : (FileNode.file (encode "dogs|N|PL\nrun|V|PL\n")).lines =
      [.ok "dogs|N|PL", .ok "run|V|PL"] := by
    decide +kernel
  have hlists : Listing.Lists (FileNode.file (encode "dogs|N|PL\nrun|V|PL\n")).lines
      [("dogs", ⟨.noun, .plural⟩), ("run", ⟨.verb, .plural⟩)] := by
    rw [hlines]
    exact .entry (Listing.says_iff.2 (by decide +kernel))
      (.entry (Listing.says_iff.2 (by decide +kernel)) .nil)
  have hloads := Loads.all hnode hlists
  simp only [petRun, Checker.build, Checker.buildOver, Checker.loaded, hloads.appendFile_ok]
  rfl

theorem readText_petRun :
    petFolder.files.readText (encode "lines") = .ok "Dogs run.\n\nCats run.\n" :=
  readText_eq_ok_iff.2 (by decide)

theorem not_unready_petRun : ¬ Unready petFolder.files petRun := by
  rw [unready_iff]
  rintro (⟨e, hbuild⟩ | ⟨path, e, hinput, hread⟩)
  · exact nomatch build_petRun.symm.trans hbuild
  · obtain rfl := Input.file.inj hinput
    exact nomatch readText_petRun.symm.trans hread

/-- The second line has a word that is not known. -/
theorem lineReports_petRun :
    ((Checker.mk dogsRun).analyzeLines "Dogs run.\n\nCats run.\n").map
        ((Checker.mk dogsRun).lineReport false) =
      [⟨[], "Dogs run.", true, []⟩,
        ⟨[], "Cats run.", false, ["Lexical Error: Unknown word 'cats' at position 1"]⟩] := by
  have hlines : Checker.sentenceLines "Dogs run.\n\nCats run.\n" = ["Dogs run.", "Cats run."] := by
    decide +kernel
  have hcats : tokenize dogsRun.lexicon "Cats run." = .error (.unknownWord "cats" 1) := by
    decide +kernel
  have hunreadable : Checker.analyze ⟨dogsRun⟩ "Cats run." =
      .unreadable (.unknownWord "cats" 1) := by
    rw [Checker.analyze, Checker.lexicon, analyze, hcats]
  rw [Checker.analyzeLines, hlines]
  simp only [List.map_cons, List.map_nil, Checker.lineReport, analyze_dogsRun, hunreadable]
  rfl

/-- The run succeeds although one line is not accepted. Asking for notes or, in JSON format, for the
tokens leaves its results as they are, and both formats tell about the two lines. -/
theorem petFolder_runs :
    Config.ofArguments (petWords []) = .ok petRun ∧ ¬ Unready petFolder.files petRun ∧
    (respond petFolder.files (petWords [])).status = 0 ∧
    (respond petFolder.files (petWords ["-v"])).stdout =
      (respond petFolder.files (petWords [])).stdout ∧
    (respond petFolder.files (petWords ["--format=json", "-t"])).stdout =
      (respond petFolder.files (petWords ["--format=json"])).stdout ∧
    ∃ found,
      readDocumentLines? (respond petFolder.files (petWords ["--format=json"])).stdout =
        some found ∧
      (readLines (respond petFolder.files (petWords [])).stdout).map
        (fun r => (r.sentence, r.ok, r.errors)) =
          found.map fun (line, r) => (line, r.ok, r.errors) := by
  have hquiet : Config.ofArguments (petWords []) = .ok petRun := by decide
  have hloud : Config.ofArguments (petWords ["-v"]) = .ok { petRun with verbose := true } := by
    decide
  have hwithout : Config.ofArguments (petWords ["--format=json"]) =
      .ok { petRun with format := .json } := by
    decide
  have hgiven : Config.ofArguments (petWords ["--format=json", "-t"]) =
      .ok { petRun with format := .json, tokens := true } := by
    decide
  obtain ⟨houtcome, hverbose, htokens, hformats⟩ := respond_runs petFolder.files
  obtain ⟨-, hstatus, -⟩ := houtcome _ petRun hquiet
  obtain ⟨-, hresults, -⟩ := hverbose _ _ petRun hquiet hloud
  obtain ⟨-, hdocument, -⟩ := htokens _ _ { petRun with format := .json } rfl hwithout hgiven
  exact ⟨hquiet, not_unready_petRun, hstatus.2 not_unready_petRun, hresults, hdocument,
    hformats _ _ petRun _ rfl not_unready_petRun hquiet hwithout⟩

end Concord
