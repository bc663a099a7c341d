import Concord.Main
import Concord.Proofs.CommandLine.Spelling
import Concord.Proofs.Session.Runs

/-!
# Accepted command lines

A configuration has its arguments, and what is given by them is all that it depends on. So a command
line asks for a configuration if and only if the arguments that it spells are those of the
configuration, in any order, and no path is empty. Every configuration whose paths are not empty can
be asked for, and one command line never asks for two inputs or for none.

Main statements: `ofArguments_eq_ok_iff`, which command lines ask for a configuration;
`ofArguments_spelled`, they do so in every order and every spelling; `exists_words_iff`, which
configurations can be asked for; `accepts_one_input`, an accepted command line gives one
input and checks it, and both inputs or neither are refused.
-/

namespace Concord

open Text

/-! ## The arguments of a configuration -/

/-- The argument that gives an input. -/
def Input.argument : Input → Argument
  | .text t => .operand (encode t)
  | .file path => .setting .file path

/-- The options that ask for a configuration, except the input. The format is given or, if it is
text, left out. -/
def Config.options (config : Config) (format : Option Format) : List Argument :=
  config.sources.lexicon.toList.map (.setting .lexicon) ++
    config.sources.extra.toList.map (.setting .extra) ++
    format.toList.map (fun format => .setting .format format.name) ++
    (if config.tokens then [.flag .tokens] else []) ++
    (if config.verbose then [.flag .verbose] else [])

/-- The arguments that ask for a configuration. -/
def Config.arguments (config : Config) (format : Option Format) : List Argument :=
  config.input.argument :: config.options format

/-- What is given by these arguments. -/
def Config.given (config : Config) (format : Option Format) : Given where
  text := match config.input with
    | .text text => some text
    | .file _ => none
  file := match config.input with
    | .text _ => none
    | .file path => some path
  lexicon := config.sources.lexicon
  extra := config.sources.extra
  format := format
  tokens := config.tokens
  verbose := config.verbose

section

variable {config : Config} {format : Option Format} {a : Argument}

/-- A configuration is what its arguments ask for. -/
theorem Given.config_eq_ok_iff {g : Given} :
    g.config = .ok config ↔ g = config.given g.format ∧ g.format.getD .text = config.format := by
  constructor
  · intro h
    obtain ⟨text, file, lexicon, extra, format, tokens, verbose⟩ := g
    unfold Given.config at h
    cases text <;> cases file <;> cases h <;> exact ⟨rfl, rfl⟩
  · rintro ⟨hg, hformat⟩
    obtain ⟨input, ⟨lexicon, extra⟩, format, tokens, verbose⟩ := config
    rw [hg]
    cases input <;> simp [Given.config, Config.given, hformat]

theorem Input.kind_argument (input : Input) :
    input.argument.kind = none ∨ input.argument.kind = some (.setting .file) := by
  cases input
  · exact .inl rfl
  · exact .inr rfl

theorem has_given_iff : (config.given format).Has a ↔ a ∈ config.arguments format := by
  unfold Given.Has Config.given Config.arguments Config.options
  cases a with
  | flag flag =>
    cases flag <;> cases config.input <;> simp [Given.get?, Input.argument, Argument.kind]
  | setting setting value =>
    cases setting with
    | file =>
      cases config.input with
      | text text => simp [Given.get?, Input.argument, Argument.kind]
      | file path =>
        simpa [Given.get?, Input.argument, Argument.kind] using eq_comm
    | lexicon | extra | format =>
      cases config.input <;> simp [Given.get?, Input.argument, Argument.kind]
  | operand word =>
    cases config.input with
    | text text =>
      simpa [Given.get?, Input.argument, Argument.kind] using eq_comm
    | file path => simp [Given.get?, Input.argument, Argument.kind]

theorem kinds_toList {α : Type} (o : Option α) {f : α → Argument} {kind : Option CommandOption}
    (h : ∀ x, (f x).kind = kind) : ((o.toList.map f).map Argument.kind).Sublist [kind] := by
  cases o with
  | none => exact List.nil_sublist _
  | some x => simp [h]

theorem kinds_ite (b : Bool) (a : Argument) :
    ((if b then [a] else []).map Argument.kind).Sublist [a.kind] := by
  cases b
  · exact List.nil_sublist _
  · exact .refl _

/-- No two arguments of a configuration are of the same kind. -/
theorem nodup_kind_arguments (config : Config) (format : Option Format) :
    ((config.arguments format).map Argument.kind).Nodup := by
  have hsub : ((config.arguments format).map Argument.kind).Sublist
      (config.input.argument.kind :: ([some (.setting .lexicon)] ++ [some (.setting .extra)] ++
        [some (.setting .format)] ++ [some (.flag .tokens)] ++ [some (.flag .verbose)])) := by
    simp only [Config.arguments, Config.options, List.map_cons, List.map_append]
    refine .cons_cons _ (.append (.append (.append (.append ?_ ?_) ?_) ?_) ?_)
    · exact kinds_toList _ fun _ => rfl
    · exact kinds_toList _ fun _ => rfl
    · exact kinds_toList _ fun _ => rfl
    · exact kinds_ite _ _
    · exact kinds_ite _ _
  refine hsub.nodup ?_
  rcases config.input.kind_argument with h | h <;> rw [h] <;> decide

theorem Argument.Right.ne_nil {setting : Setting} {value : Bytes}
    (h : (Argument.setting setting value).Right) : value ≠ [] := by
  cases h with
  | path _ hne => exact hne
  | format format => cases format <;> decide

theorem mem_paths_iff {path : Path} : path ∈ config.paths ↔ config.sources.lexicon = some path ∨
    config.sources.extra = some path ∨ config.input = .file path := by
  unfold Config.paths
  cases config.input <;> simp [eq_comm]

theorem mem_options_iff : a ∈ config.options format ↔
    (∃ path, config.sources.lexicon = some path ∧ .setting .lexicon path = a) ∨
    (∃ path, config.sources.extra = some path ∧ .setting .extra path = a) ∨
    (∃ f, format = some f ∧ .setting .format f.name = a) ∨
    (config.tokens = true ∧ a = .flag .tokens) ∨ (config.verbose = true ∧ a = .flag .verbose) := by
  simp [Config.options]

/-- An argument gives an input: a text, or the path of a file. -/
def Argument.isInput : Argument → Bool
  | .operand _ => true
  | .setting .file _ => true
  | _ => false

theorem isInput_of_mem_options (h : a ∈ config.options format) : a.isInput = false := by
  rcases mem_options_iff.1 h with ⟨path, -, rfl⟩ | ⟨path, -, rfl⟩ | ⟨format, -, rfl⟩ | ⟨-, rfl⟩ |
    ⟨-, rfl⟩ <;> rfl

/-- The arguments of a configuration are right if its paths are not empty. -/
theorem right_arguments_iff : (∀ a ∈ config.arguments format, a.Right) ↔
    ∀ path ∈ config.paths, path ≠ [] := by
  constructor
  · intro h path hpath
    have hmem : ∃ setting, .setting setting path ∈ config.arguments format := by
      rcases mem_paths_iff.1 hpath with hlexicon | hextra | hinput
      · exact ⟨.lexicon, List.mem_cons_of_mem _ (mem_options_iff.2 (.inl ⟨path, hlexicon, rfl⟩))⟩
      · exact ⟨.extra, List.mem_cons_of_mem _ (mem_options_iff.2 (.inr (.inl ⟨path, hextra, rfl⟩)))⟩
      · exact ⟨.file, List.mem_cons.2 (.inl (by rw [hinput, Input.argument]))⟩
    obtain ⟨setting, hmem⟩ := hmem
    exact (h _ hmem).ne_nil
  · intro h a ha
    rcases List.mem_cons.1 ha with rfl | ha
    · cases hinput : config.input with
      | text text => exact .operand text
      | file path => exact .path (by decide) (h path (mem_paths_iff.2 (.inr (.inr hinput))))
    · rcases mem_options_iff.1 ha with ⟨path, hpath, rfl⟩ | ⟨path, hpath, rfl⟩ | ⟨format, -, rfl⟩ |
        ⟨-, rfl⟩ | ⟨-, rfl⟩
      · exact .path (by decide) (h path (mem_paths_iff.2 (.inl hpath)))
      · exact .path (by decide) (h path (mem_paths_iff.2 (.inr (.inl hpath))))
      · exact .format format
      · exact .tokens
      · exact .verbose

/-- The arguments that a command line spells are accepted if they are those of a configuration, in
any order, and then they ask for this configuration. -/
theorem ofArguments_eq_ok_iff {words : List Bytes} {args : List Argument} (h : Spells words args) :
    Config.ofArguments words = .ok config ↔ (∀ path ∈ config.paths, path ≠ []) ∧
      ∃ format, format.getD .text = config.format ∧ args.Perm (config.arguments format) := by
  constructor
  · intro hread
    obtain ⟨g, htake, hconfig⟩ := exists_takeArguments_of_ofArguments h hread
    obtain ⟨hg, hformat⟩ := Given.config_eq_ok_iff.1 hconfig
    obtain ⟨hargs, hnodup, -⟩ := Given.takeArguments_ok htake
    have hmem (a : Argument) : a ∈ args ↔ a ∈ config.arguments g.format := by
      rw [← Given.has_iff_mem htake, ← has_given_iff, ← hg]
    have hperm : args.Perm (config.arguments g.format) :=
      (List.perm_ext_iff_of_nodup (.of_map _ hnodup)
        (.of_map _ (nodup_kind_arguments config g.format))).2 hmem
    exact ⟨right_arguments_iff.1 fun a ha => (hargs a ((hmem a).2 ha)).1,
      g.format, hformat, hperm⟩
  · rintro ⟨hpaths, format, hformat, hperm⟩
    have hright : ∀ a ∈ args, a.Right :=
      fun a ha => right_arguments_iff.2 hpaths a (hperm.mem_iff.1 ha)
    have hnodup : (args.map Argument.kind).Nodup :=
      (hperm.map _).nodup_iff.2 (nodup_kind_arguments config format)
    obtain ⟨g, htake⟩ :=
      Given.exists_takeArguments hright (fun a _ => Given.get?_empty a.kind) hnodup
    obtain rfl : g = config.given format := by
      refine Given.has_injective fun a => ?_
      rw [Given.has_iff_mem htake, has_given_iff, hperm.mem_iff]
    rw [ofArguments_of_takeArguments h htake]
    exact Given.config_eq_ok_iff.2 ⟨rfl, hformat⟩

end

/-! ## Every order and every spelling -/

/-- The arguments of a configuration ask for it in every order and in every spelling, with or
without the format if it is text. -/
theorem ofArguments_spelled {config : Config} (hpaths : ∀ path ∈ config.paths, path ≠ [])
    {format : Option Format} (hformat : format.getD .text = config.format) {args : List Argument}
    (hargs : args.Perm (config.arguments format)) {words : List Bytes}
    (hwords : Spells words args) : Config.ofArguments words = .ok config :=
  (ofArguments_eq_ok_iff hwords).2 ⟨hpaths, format, hformat, hargs⟩

/-- A text that looks like an option, and a path that does. -/
def dashes : Config :=
  ⟨.text "-v", ⟨some (encode "a"), some (encode "-b")⟩, .json, true, true⟩

/-- Letters share a word with a path, and after the end of the options stands the text. -/
theorem dashes_spelled :
    (∀ path ∈ dashes.paths, path ≠ []) ∧
    [.flag .verbose, .flag .tokens, .setting .extra (encode "-b"), .setting .format (encode "json"),
      .setting .lexicon (encode "a"), .operand (encode "-v")].Perm (dashes.arguments (some .json)) ∧
    Config.ofArguments [encode "-vtd=-b", encode "--format", encode "json", encode "--lexicon=a",
      encode "--", encode "-v"] = .ok dashes := by
  have hpaths : ∀ path ∈ dashes.paths, path ≠ [] := by decide
  have hargs : [.flag .verbose, .flag .tokens, .setting .extra (encode "-b"),
      .setting .format (encode "json"), .setting .lexicon (encode "a"),
      .operand (encode "-v")].Perm (dashes.arguments (some .json)) := by decide
  have hwords : Spells [encode "-vtd=-b", encode "--format", encode "json", encode "--lexicon=a",
      encode "--", encode "-v"] [.flag .verbose, .flag .tokens, .setting .extra (encode "-b"),
      .setting .format (encode "json"), .setting .lexicon (encode "a"), .operand (encode "-v")] :=
    .group (.lettersEquals [.verbose, .tokens] (encode "-b") rfl)
      (.group (.longApart .format (by decide)) (.group (.longEquals .lexicon (encode "a"))
        (.operands [encode "-v"])))
  exact ⟨hpaths, hargs, ofArguments_spelled hpaths rfl hargs hwords⟩

/-- Options can be spelled before anything else. -/
theorem exists_spells_before {args : List Argument} (h : ∀ a ∈ args, a.isInput = false)
    {words : List Bytes} {args' : List Argument} (hwords : Spells words args') :
    ∃ front, Spells (front ++ words) (args ++ args') := by
  induction args with
  | nil => exact ⟨[], hwords⟩
  | cons a args ih =>
    obtain ⟨ha, hargs⟩ := List.forall_mem_cons.1 h
    obtain ⟨front, hfront⟩ := ih hargs
    cases a with
    | flag flag =>
      have hword := Spells.group (.long flag) hfront
      exact ⟨_ :: front, hword⟩
    | setting setting value =>
      have hword := Spells.group (.longEquals setting value) hfront
      exact ⟨_ :: front, hword⟩
    | operand word => exact nomatch ha

/-- The arguments of a configuration can be spelled, with the input at the end. -/
theorem exists_spells_arguments (config : Config) (format : Option Format) :
    ∃ words args, Spells words args ∧ args.Perm (config.arguments format) := by
  have hlast : ∃ last, Spells last [config.input.argument] := by
    cases config.input with
    | text text => exact ⟨_, .operands [encode text]⟩
    | file path => exact ⟨_, .group (.longEquals .file path) .nil⟩
  obtain ⟨last, hlast⟩ := hlast
  obtain ⟨front, hwords⟩ := exists_spells_before
    (fun a (ha : a ∈ config.options format) => isInput_of_mem_options ha) hlast
  exact ⟨front ++ last, _, hwords, List.perm_append_singleton _ _⟩

/-- The configurations that can be asked for are those without an empty path. -/
theorem exists_words_iff {config : Config} :
    (∃ words, Config.ofArguments words = .ok config) ↔ ∀ path ∈ config.paths, path ≠ [] := by
  constructor
  · rintro ⟨words, h⟩
    obtain ⟨args, hwords⟩ := exists_spells h
    exact ((ofArguments_eq_ok_iff hwords).1 h).1
  · intro hpaths
    obtain ⟨words, args, hwords, hargs⟩ := exists_spells_arguments config (some config.format)
    exact ⟨words, (ofArguments_eq_ok_iff hwords).2 ⟨hpaths, some config.format, rfl, hargs⟩⟩

/-! ## One input -/

theorem filter_isInput_arguments (config : Config) (format : Option Format) :
    (config.arguments format).filter Argument.isInput = [config.input.argument] := by
  have hfirst : config.input.argument.isInput = true := by cases config.input <;> rfl
  have hnone : (config.options format).filter Argument.isInput = [] := by
    refine List.filter_eq_nil_iff.2 fun a ha => ?_
    rw [isInput_of_mem_options ha]
    exact Bool.false_ne_true
  rw [Config.arguments, List.filter_cons_of_pos hfirst, hnone]

/-- A text and a file exclude each other, -/
theorem config_of_both {g : Given} {word path : Bytes} (hword : g.Has (.operand word))
    (hpath : g.Has (.setting .file path)) : g.config = .error (.fault .conflict) := by
  obtain ⟨text, htext, -⟩ := Option.map_eq_some_iff.1 hword
  obtain ⟨path, hfile, -⟩ := Option.map_eq_some_iff.1 hpath
  simp only [Given.config, htext, hfile]

/-- and one of them is needed. -/
theorem config_of_neither {g : Given} (hword : ∀ word, ¬ g.Has (.operand word))
    (hpath : ∀ path, ¬ g.Has (.setting .file path)) :
    g.config = .error (.fault .missingInput) := by
  have htext : g.text = none := by
    cases htext : g.text with
    | none => rfl
    | some text => exact absurd (Option.map_eq_some_iff.2 ⟨text, htext, rfl⟩) (hword (encode text))
  have hfile : g.file = none := by
    cases hfile : g.file with
    | none => rfl
    | some path => exact absurd (Option.map_eq_some_iff.2 ⟨path, hfile, rfl⟩) (hpath path)
  simp only [Given.config, htext, hfile]

/-- An accepted command line spells arguments, and whatever arguments it spells, no two of them are
of the same kind and exactly one gives an input, which is that of the configuration; and no path is
empty. If the run does not fail, it checks this input, the text or the lines of the file, and what
is found about it can be read from its results in either format; they are empty only for a file
without lines. Arguments that are right and of different kinds are refused as a conflict if they
give both inputs, and as a missing input if they give neither. -/
theorem accepts_one_input (files : FileSystem) :
    (∀ (words : List Bytes) (config : Config), Config.ofArguments words = .ok config →
      (∃ args, Spells words args) ∧
      (∀ args, Spells words args → (args.map Argument.kind).Nodup ∧
        args.filter Argument.isInput = [config.input.argument]) ∧
      (∀ path ∈ config.paths, path ≠ []) ∧
      (¬ Unready files config → (respond files words).status = 0 ∧
        ∃ setup, Checker.build files config.sources = .ok setup ∧
        ((∃ text, config.input = .text text ∧
          respond files words = { checkText setup.checker config text with
            notes := setup.notes config ++ (checkText setup.checker config text).notes } ∧
          setup.checker.TellsText config text (respond files words).stdout ∧
          (respond files words).stdout ≠ "") ∨
        ∃ path text, config.input = .file path ∧ files.readText path = .ok text ∧
          respond files words = { checkLines setup.checker config text with
            notes := setup.notes config ++ (checkLines setup.checker config text).notes } ∧
          setup.checker.TellsLines config text (respond files words).stdout ∧
          ((respond files words).stdout = "" → setup.checker.analyzeLines text = [])))) ∧
    ∀ (words : List Bytes) (args : List Argument), Spells words args →
      (args.map Argument.kind).Nodup → (∀ a ∈ args, a.Right) →
      ((∃ word, .operand word ∈ args) → (∃ path, .setting .file path ∈ args) →
        Config.ofArguments words = .error (.fault .conflict)) ∧
      ((∀ word, .operand word ∉ args) → (∀ path, .setting .file path ∉ args) →
        Config.ofArguments words = .error (.fault .missingInput)) := by
  constructor
  · intro words config h
    refine ⟨exists_spells h, fun args hwords => ?_, ?_, fun hready => ?_⟩
    · obtain ⟨-, format, -, hargs⟩ := (ofArguments_eq_ok_iff hwords).1 h
      refine ⟨(hargs.map _).nodup_iff.2 (nodup_kind_arguments config format), ?_⟩
      rw [← List.perm_singleton, ← filter_isInput_arguments config format]
      exact hargs.filter _
    · exact exists_words_iff.1 ⟨words, h⟩
    · rw [respond_eq_execute h]
      obtain ⟨setup, hbuild, ⟨text, hinput, hrun⟩ | ⟨path, text, hinput, hread, hrun⟩⟩ :=
        execute_ready hready
      · have htells := setup.checker.tellsText_checkText config text
        rw [hrun]
        exact ⟨status_checkText _, setup, hbuild,
          .inl ⟨text, hinput, rfl, htells, htells.ne_empty⟩⟩
      · have htells := setup.checker.tellsLines_checkLines config text
        rw [hrun]
        refine ⟨status_checkLines _, setup, hbuild,
          .inr ⟨path, text, hinput, hread, rfl, htells, fun hempty => ?_⟩⟩
        exact Checker.TellsLines.analyzeLines_eq_nil (hempty ▸ htells)
  · intro words args hwords hnodup hright
    obtain ⟨g, htake⟩ :=
      Given.exists_takeArguments hright (fun a _ => Given.get?_empty a.kind) hnodup
    have hmem := Given.has_iff_mem htake
    rw [ofArguments_of_takeArguments hwords htake]
    constructor
    · rintro ⟨word, hword⟩ ⟨path, hpath⟩
      exact config_of_both ((hmem _).2 hword) ((hmem _).2 hpath)
    · intro hword hpath
      exact config_of_neither (fun word h => hword word ((hmem _).1 h))
        fun path h => hpath path ((hmem _).1 h)

/-- Of the two lines of a file one has a word that is not in the lexicon. An empty text is an input
too, and excludes a file. -/
theorem petFolder_accepts_one_input :
    Config.ofArguments (petWords []) = .ok petRun ∧ ¬ Unready petFolder.files petRun ∧
    (respond petFolder.files (petWords [])).status = 0 ∧
    readLines (respond petFolder.files (petWords [])).stdout =
      [⟨[], "Dogs run.", true, []⟩,
        ⟨[], "Cats run.", false, ["Lexical Error: Unknown word 'cats' at position 1"]⟩] ∧
    Config.ofArguments [encode "-fa", encode "--", []] = .error (.fault .conflict) := by
  have hwords : Config.ofArguments (petWords []) = .ok petRun := by decide
  obtain ⟨haccepted, hrefused⟩ := accepts_one_input petFolder.files
  obtain ⟨-, -, -, hrun⟩ := haccepted (petWords []) petRun hwords
  obtain ⟨hstatus, setup, hbuild, htold⟩ := hrun not_unready_petRun
  obtain rfl := Except.ok.inj (build_petRun.symm.trans hbuild)
  refine ⟨hwords, not_unready_petRun, hstatus, ?_, ?_⟩
  · obtain ⟨text, hinput, -⟩ | ⟨path, text, hinput, hread, -, htells, -⟩ := htold
    · exact nomatch hinput
    · obtain rfl := Input.file.inj hinput
      obtain rfl := Except.ok.inj (readText_petRun.symm.trans hread)
      exact htells.trans lineReports_petRun
  · have hspells : Spells [encode "-fa", encode "--", []]
        [.setting .file (encode "a"), .operand []] :=
      .group (.lettersJoined [] rfl (by decide) (by decide)) (.operands [[]])
    refine (hrefused _ _ hspells (by decide) ?_).1 ⟨[], by decide⟩ ⟨encode "a", by decide⟩
    exact List.forall_mem_cons.2 ⟨.path (by decide) (by decide),
      List.forall_mem_singleton.2 (.operand "")⟩

end Concord
