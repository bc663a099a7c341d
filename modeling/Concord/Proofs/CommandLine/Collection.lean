import Concord.CommandLine.Arguments
import Concord.Proofs.Text.Encoding

/-!
# Collecting arguments

The arguments of a command line are taken one by one. An argument is taken if its value is right and
nothing of its kind was taken before, and then it is all that changes (`Taken`). So what is given in
the end are the arguments, in whatever order they came. They are refused only if one of them is not
right or two are of the same kind.

Main statements: `takeArguments_ok` and `exists_takeArguments`, which arguments are taken and what
is given then; `has_injective`, what was given follows from its arguments.
-/

namespace Concord

open Text

/-- What a command line gives: an option, with the value it takes, or an operand. -/
inductive Argument where
  | flag (flag : Flag)
  | setting (setting : Setting) (value : Bytes)
  | operand (word : Bytes)
  deriving DecidableEq

/-- The kind of an argument: its option, or none for an operand. -/
def Argument.kind : Argument → Option CommandOption
  | .flag f => some (.flag f)
  | .setting s _ => some (.setting s)
  | .operand _ => none

/-- The name of a format. -/
def Format.name : Format → Bytes
  | text => encode "text"
  | json => encode "json"

theorem Format.ofName?_eq_some_iff {name : Bytes} {format : Format} :
    Format.ofName? name = some format ↔ name = format.name := by
  constructor
  · intro h
    unfold Format.ofName? at h
    split at h
    · cases h
      assumption
    · split at h
      · cases h
        assumption
      · exact nomatch h
  · rintro rfl
    cases format <;> rfl

theorem Format.name_injective {format format' : Format} (h : format.name = format'.name) :
    format = format' :=
  Option.some.inj ((ofName?_eq_some_iff.2 rfl).symm.trans (ofName?_eq_some_iff.2 h))

/-- An argument is right in itself: a path is not empty, a format has a name and an operand is text,
and it does not ask about the program. -/
inductive Argument.Right : Argument → Prop
  | tokens : Right (.flag .tokens)
  | verbose : Right (.flag .verbose)
  | path {setting : Setting} {value : Bytes} : setting ≠ .format → value ≠ [] →
      Right (.setting setting value)
  | format (format : Format) : Right (.setting .format format.name)
  | operand (text : String) : Right (.operand (encode text))

theorem map_eq_ok_iff {ε α β : Type} {x : Except ε α} {f : α → β} {b : β} :
    x.map f = .ok b ↔ ∃ a, x = .ok a ∧ f a = b := by
  cases x <;> simp [Except.map]

namespace Given

variable {g g' : Given} {a : Argument} {args : List Argument}

/-- What was given of a kind. -/
def get? (g : Given) : Option CommandOption → Option Argument
  | none => g.text.map fun text => .operand (encode text)
  | some (.setting .file) => g.file.map (.setting .file)
  | some (.setting .lexicon) => g.lexicon.map (.setting .lexicon)
  | some (.setting .extra) => g.extra.map (.setting .extra)
  | some (.setting .format) => g.format.map fun format => .setting .format format.name
  | some (.flag .tokens) => if g.tokens then some (.flag .tokens) else none
  | some (.flag .verbose) => if g.verbose then some (.flag .verbose) else none
  | some (.flag .help) => none
  | some (.flag .version) => none

theorem get?_empty (kind : Option CommandOption) : empty.get? kind = none := by
  rcases kind with _ | ⟨flag⟩ | ⟨setting⟩
  · rfl
  · cases flag <;> rfl
  · cases setting <;> rfl

theorem kind_of_get? {kind : Option CommandOption} (h : g.get? kind = some a) : a.kind = kind := by
  rcases kind with _ | ⟨flag⟩ | ⟨setting⟩
  · obtain ⟨text, -, rfl⟩ := Option.map_eq_some_iff.1 h
    rfl
  · cases flag with
    | tokens | verbose =>
      obtain ⟨-, h⟩ := Option.ite_none_right_eq_some.1 h
      obtain rfl := Option.some.inj h
      rfl
    | help | version => exact nomatch h
  · cases setting <;> obtain ⟨value, -, rfl⟩ := Option.map_eq_some_iff.1 h <;> rfl

/-- An argument was given. -/
def Has (g : Given) (a : Argument) : Prop := g.get? a.kind = some a

theorem not_has_empty (a : Argument) : ¬ empty.Has a := by
  rw [Has, get?_empty]
  exact Option.some_ne_none a ∘ Eq.symm

theorem ite_some_injective {α : Type} {x : α} {b b' : Bool}
    (h : (if b then some x else none) = if b' then some x else none) : b = b' := by
  cases b <;> cases b' <;> simp_all

/-- What was given of each kind is all that was given. -/
theorem get?_injective (h : ∀ kind, g.get? kind = g'.get? kind) : g = g' := by
  have htext : g.text = g'.text :=
    Option.map_injective (fun _ _ ht => encode_injective (Argument.operand.inj ht)) (h none)
  have hfile : g.file = g'.file :=
    Option.map_injective (fun _ _ hp => (Argument.setting.inj hp).2) (h (some (.setting .file)))
  have hlexicon : g.lexicon = g'.lexicon :=
    Option.map_injective (fun _ _ hp => (Argument.setting.inj hp).2) (h (some (.setting .lexicon)))
  have hextra : g.extra = g'.extra :=
    Option.map_injective (fun _ _ hp => (Argument.setting.inj hp).2) (h (some (.setting .extra)))
  have hformat : g.format = g'.format :=
    Option.map_injective (fun _ _ hf => Format.name_injective (Argument.setting.inj hf).2)
      (h (some (.setting .format)))
  have htokens : g.tokens = g'.tokens := ite_some_injective (h (some (.flag .tokens)))
  have hverbose : g.verbose = g'.verbose := ite_some_injective (h (some (.flag .verbose)))
  cases g
  cases g'
  simp_all

/-- What was given follows from its arguments. -/
theorem has_injective (h : ∀ a, g.Has a ↔ g'.Has a) : g = g' := by
  have himp {g g' : Given} (h : ∀ a, g.Has a ↔ g'.Has a) (kind : Option CommandOption)
      (a : Argument) (ha : g.get? kind = some a) : g'.get? kind = some a := by
    obtain rfl := kind_of_get? ha
    exact (h a).1 ha
  exact get?_injective fun kind => Option.ext fun a =>
    ⟨himp h kind a, himp (fun a => (h a).symm) kind a⟩

/-! ## One argument -/

/-- Takes an argument. -/
def takeArgument (g : Given) : Argument → Except Stop Given
  | .flag flag => g.takeFlag flag
  | .setting setting value => g.takeSetting setting value
  | .operand word => g.takeOperand word

/-- What taking an argument changes. -/
inductive Taken (g : Given) : Argument → Given → Prop
  | tokens : g.tokens = false → Taken g (.flag .tokens) { g with tokens := true }
  | verbose : g.verbose = false → Taken g (.flag .verbose) { g with verbose := true }
  | file {path : Path} : g.file = none → path ≠ [] →
      Taken g (.setting .file path) { g with file := some path }
  | lexicon {path : Path} : g.lexicon = none → path ≠ [] →
      Taken g (.setting .lexicon path) { g with lexicon := some path }
  | extra {path : Path} : g.extra = none → path ≠ [] →
      Taken g (.setting .extra path) { g with extra := some path }
  | format {format : Format} : g.format = none →
      Taken g (.setting .format format.name) { g with format := some format }
  | operand {text : String} : g.text = none →
      Taken g (.operand (encode text)) { g with text := some text }

theorem takePath_eq_ok_iff {before : Option Path} {value path : Bytes} :
    takePath before value = .ok path ↔ before = none ∧ path ≠ [] ∧ value = path := by
  unfold takePath
  cases before with
  | some path => simp
  | none => cases value with
    | nil => simp
    | cons b value =>
      simp only [Option.isSome_none, List.isEmpty_cons, Bool.false_eq_true, if_false,
        Except.ok.injEq, true_and]
      constructor
      · rintro rfl
        exact ⟨List.cons_ne_nil _ _, rfl⟩
      · exact And.right

theorem takeFormat_eq_ok_iff {before : Option Format} {value : Bytes} {format : Format} :
    takeFormat before value = .ok format ↔ before = none ∧ value = format.name := by
  unfold takeFormat
  rw [← Format.ofName?_eq_some_iff]
  cases before <;> cases Format.ofName? value <;> simp

theorem ite_eq_ok_iff {b : Bool} {stop : Stop} :
    (if b then .error stop else .ok g) = Except.ok g' ↔ b = false ∧ g = g' := by
  cases b <;> simp

/-- An argument is taken in exactly these ways. -/
theorem takeArgument_eq_ok_iff : g.takeArgument a = .ok g' ↔ Taken g a g' := by
  constructor
  · intro h
    cases a with
    | flag flag =>
      cases flag with
      | tokens =>
        obtain ⟨hunset, rfl⟩ := ite_eq_ok_iff.1 h
        exact .tokens hunset
      | verbose =>
        obtain ⟨hunset, rfl⟩ := ite_eq_ok_iff.1 h
        exact .verbose hunset
      | help | version => exact nomatch h
    | setting setting value =>
      cases setting with
      | file =>
        obtain ⟨path, hpath, rfl⟩ := map_eq_ok_iff.1 h
        obtain ⟨hnone, hne, rfl⟩ := takePath_eq_ok_iff.1 hpath
        exact .file hnone hne
      | lexicon =>
        obtain ⟨path, hpath, rfl⟩ := map_eq_ok_iff.1 h
        obtain ⟨hnone, hne, rfl⟩ := takePath_eq_ok_iff.1 hpath
        exact .lexicon hnone hne
      | extra =>
        obtain ⟨path, hpath, rfl⟩ := map_eq_ok_iff.1 h
        obtain ⟨hnone, hne, rfl⟩ := takePath_eq_ok_iff.1 hpath
        exact .extra hnone hne
      | format =>
        obtain ⟨format, hformat, rfl⟩ := map_eq_ok_iff.1 h
        obtain ⟨hnone, rfl⟩ := takeFormat_eq_ok_iff.1 hformat
        exact .format hnone
    | operand word =>
      simp only [takeArgument, takeOperand] at h
      split at h
      · exact nomatch h
      · exact nomatch h
      next text hnone hword =>
        cases h
        obtain rfl := decode?_eq_some_iff.1 hword
        exact .operand hnone
  · intro h
    cases h with
    | tokens hunset | verbose hunset => exact ite_eq_ok_iff.2 ⟨hunset, rfl⟩
    | file hnone hne | lexicon hnone hne | extra hnone hne =>
      exact map_eq_ok_iff.2 ⟨_, takePath_eq_ok_iff.2 ⟨hnone, hne, rfl⟩, rfl⟩
    | format hnone => exact map_eq_ok_iff.2 ⟨_, takeFormat_eq_ok_iff.2 ⟨hnone, rfl⟩, rfl⟩
    | operand hnone => simp [takeArgument, takeOperand, hnone, decode?_encode]

theorem Taken.right (h : Taken g a g') : a.Right := by
  cases h with
  | tokens _ => exact .tokens
  | verbose _ => exact .verbose
  | file _ hne | lexicon _ hne | extra _ hne => exact .path (by decide) hne
  | format _ => exact .format _
  | operand _ => exact .operand _

/-- Nothing of its kind was given before, -/
theorem Taken.get?_before (h : Taken g a g') : g.get? a.kind = none := by
  cases h <;> simp [get?, Argument.kind, *]

/-- and then it is what was given of its kind. -/
theorem Taken.get?_after (h : Taken g a g') (kind : Option CommandOption) :
    g'.get? kind = if kind = a.kind then some a else g.get? kind := by
  rcases kind with _ | ⟨flag⟩ | ⟨setting⟩
  · cases h <;> rfl
  · cases h <;> cases flag <;> rfl
  · cases h <;> cases setting <;> rfl

theorem Taken.has_iff (h : Taken g a g') (b : Argument) : g'.Has b ↔ b = a ∨ g.Has b := by
  rw [Has, Has, h.get?_after]
  split
  next hkind =>
    rw [hkind, h.get?_before, Option.some.injEq, eq_comm]
    simp
  next hkind =>
    have hne : b ≠ a := fun hb => hkind (congrArg Argument.kind hb)
    simp [hne]

theorem exists_taken (hright : a.Right) (hbefore : g.get? a.kind = none) : ∃ g', Taken g a g' := by
  cases hright with
  | tokens => exact ⟨_, .tokens (by simpa [get?, Argument.kind] using hbefore)⟩
  | verbose => exact ⟨_, .verbose (by simpa [get?, Argument.kind] using hbefore)⟩
  | @path setting value hsetting hne =>
    cases setting with
    | file => exact ⟨_, .file (Option.map_eq_none_iff.1 hbefore) hne⟩
    | lexicon => exact ⟨_, .lexicon (Option.map_eq_none_iff.1 hbefore) hne⟩
    | extra => exact ⟨_, .extra (Option.map_eq_none_iff.1 hbefore) hne⟩
    | format => exact absurd rfl hsetting
  | format format => exact ⟨_, .format (Option.map_eq_none_iff.1 hbefore)⟩
  | operand text => exact ⟨_, .operand (Option.map_eq_none_iff.1 hbefore)⟩

/-! ## All arguments -/

/-- Takes arguments, one after the other. -/
def takeArguments (g : Given) (args : List Argument) : Except Stop Given :=
  args.foldlM takeArgument g

theorem takeArguments_cons (h : g.takeArgument a = .ok g') :
    g.takeArguments (a :: args) = g'.takeArguments args := by
  rw [takeArguments, List.foldlM_cons, h]
  rfl

theorem exists_takeArgument_of_cons (h : g.takeArguments (a :: args) = .ok g') :
    ∃ next, g.takeArgument a = .ok next ∧ next.takeArguments args = .ok g' := by
  cases hnext : g.takeArgument a with
  | error stop =>
    rw [takeArguments, List.foldlM_cons, hnext] at h
    exact nomatch h
  | ok next => exact ⟨next, rfl, takeArguments_cons hnext ▸ h⟩

/-- Arguments that are taken are right, and no two are of the same kind or of a kind that was given
before. In the end they were given too. -/
theorem takeArguments_ok (h : g.takeArguments args = .ok g') :
    (∀ a ∈ args, a.Right ∧ g.get? a.kind = none) ∧ (args.map Argument.kind).Nodup ∧
      ∀ a, g'.Has a ↔ a ∈ args ∨ g.Has a := by
  induction args generalizing g with
  | nil =>
    cases h
    simp
  | cons a args ih =>
    obtain ⟨next, hnext, hrest⟩ := exists_takeArgument_of_cons h
    have htaken := takeArgument_eq_ok_iff.1 hnext
    obtain ⟨hargs, hnodup, hhas⟩ := ih hrest
    have hother : ∀ b ∈ args, b.kind ≠ a.kind ∧ g.get? b.kind = none := by
      intro b hb
      have hnone := (hargs b hb).2
      rw [htaken.get?_after] at hnone
      split at hnone
      · exact nomatch hnone
      next hkind => exact ⟨hkind, hnone⟩
    refine ⟨List.forall_mem_cons.2 ⟨⟨htaken.right, htaken.get?_before⟩, fun b hb =>
      ⟨(hargs b hb).1, (hother b hb).2⟩⟩, ?_, fun b => ?_⟩
    · rw [List.map_cons, List.nodup_cons]
      refine ⟨fun hmem => ?_, hnodup⟩
      obtain ⟨b, hb, hkind⟩ := List.mem_map.1 hmem
      exact (hother b hb).1 hkind
    · rw [hhas, htaken.has_iff, List.mem_cons, or_assoc]
      exact or_left_comm

/-- What is given in the end are the arguments. -/
theorem has_iff_mem (h : empty.takeArguments args = .ok g) (a : Argument) : g.Has a ↔ a ∈ args := by
  obtain ⟨-, -, hhas⟩ := takeArguments_ok h
  rw [hhas, or_iff_left (not_has_empty a)]

/-- Right arguments of different kinds that were not given before are taken. -/
theorem exists_takeArguments (hright : ∀ a ∈ args, a.Right)
    (hbefore : ∀ a ∈ args, g.get? a.kind = none) (hnodup : (args.map Argument.kind).Nodup) :
    ∃ g', g.takeArguments args = .ok g' := by
  induction args generalizing g with
  | nil => exact ⟨g, rfl⟩
  | cons a args ih =>
    obtain ⟨hfirst, hrest⟩ := List.forall_mem_cons.1 hright
    obtain ⟨hfree, hbefore⟩ := List.forall_mem_cons.1 hbefore
    obtain ⟨hnew, hnodup⟩ := List.nodup_cons.1 hnodup
    obtain ⟨next, htaken⟩ := exists_taken hfirst hfree
    rw [takeArguments_cons (takeArgument_eq_ok_iff.2 htaken)]
    refine ih hrest (fun b hb => ?_) hnodup
    rw [htaken.get?_after, if_neg fun hkind => hnew (List.mem_map.2 ⟨b, hb, hkind⟩)]
    exact hbefore b hb

end Given

end Concord
