import Concord.Checker
import Concord.Proofs.Lexicon.Dictionary
import Concord.Proofs.Text.Casing

/-!
# The layers of the active lexicon

The active lexicon has a base, which is the English words or the lexicon file given in their place,
and over it the words of the additional file. A word has the entry of the upper layer that knows it,
and within a file the entry of its last line.

The English lexicon is shared, and it is copied before other words are entered into it. Its words
are listed and entered again, in any order. This changes no answer because they are in lower case
and all different.

Main statements: `get?_insertAll`, entering words puts a layer over a trie; `get?_ofList_reordered`,
the words of a trie can be entered again in any order; `get?_ofList_listed`, a copy of the English
lexicon answers as the table of its words; `build_layers`, a checker fails or answers as its layers
say, whatever the order of the copy.
-/

namespace Concord

open Text Listing

/-! ## One layer -/

/-- The entry of the last word, among some, that is the same in lower case. -/
def lastFor? (entries : List (String × Entry)) (word : String) : Option Entry :=
  (entries.reverse.find? fun x => lowered x.1 == lowered word).map Prod.snd

theorem lastFor?_cons (x : String × Entry) (entries : List (String × Entry)) (word : String) :
    lastFor? (x :: entries) word =
      (lastFor? entries word).or (if lowered x.1 = lowered word then some x.2 else none) := by
  unfold lastFor?
  rw [List.reverse_cons, List.find?_append, List.find?_singleton]
  cases entries.reverse.find? fun x => lowered x.1 == lowered word with
  | some y => rfl
  | none => by_cases h : lowered x.1 = lowered word <;> simp [h]

/-- If the words are in lower case and all different, it does not matter which comes last. -/
theorem lastFor?_eq_some_iff {entries : List (String × Entry)}
    (hlower : ∀ x ∈ entries, lowered x.1 = x.1) (hnodup : (entries.map Prod.fst).Nodup)
    {word : String} {e : Entry} :
    lastFor? entries word = some e ↔ (lowered word, e) ∈ entries := by
  induction entries generalizing e with
  | nil => simp [lastFor?]
  | cons x entries ih =>
    obtain ⟨hx, hlower⟩ := List.forall_mem_cons.1 hlower
    rw [List.map_cons, List.nodup_cons] at hnodup
    rw [lastFor?_cons, hx, List.mem_cons, ← ih hlower hnodup.2]
    by_cases hword : x.1 = lowered word
    · have hnone : lastFor? entries word = none := by
        refine Option.eq_none_iff_forall_ne_some.2 fun e' he' => hnodup.1 ?_
        rw [hword]
        exact List.mem_map.2 ⟨_, (ih hlower hnodup.2).1 he', rfl⟩
      rw [hnone, if_pos hword, ← hword]
      simp [Prod.ext_iff, eq_comm]
    · have hne : (lowered word, e) ≠ x := fun h => hword (congrArg Prod.fst h).symm
      simp [hword, hne]

/-- Entering a word answers for it in any case, and changes no other answer. -/
theorem get?_insert (t : Trie) (word : String) (e : Entry) (other : String) :
    (t.insert word e).get? other =
      if lowered word = lowered other then some e else t.get? other := by
  unfold Trie.insert Trie.get?
  split
  case isTrue h =>
    rw [← String.ofList_injective h]
    exact Trie.findKey?_insertKey_self t _ e
  case isFalse h =>
    exact Trie.findKey?_insertKey_of_ne t e fun hkey => h (congrArg String.ofList hkey.symm)

/-- Entering words puts a layer over a trie. -/
theorem get?_insertAll (t : Trie) (entries : List (String × Entry)) (word : String) :
    (t.insertAll entries).get? word = (lastFor? entries word).or (t.get? word) := by
  induction entries generalizing t with
  | nil => rfl
  | cons x entries ih =>
    have hcons : t.insertAll (x :: entries) = (t.insert x.1 x.2).insertAll entries := rfl
    rw [hcons, ih, get?_insert, lastFor?_cons, Option.or_assoc]
    split <;> rfl

/-- Words that are other ones in lower case change no answer. -/
theorem get?_insertAll_of_ne {entries : List (String × Entry)} {word : String}
    (h : ∀ x ∈ entries, lowered x.1 ≠ lowered word) (t : Trie) :
    (t.insertAll entries).get? word = t.get? word := by
  induction entries generalizing t with
  | nil => rfl
  | cons x entries ih =>
    obtain ⟨hx, hentries⟩ := List.forall_mem_cons.1 h
    have hcons : t.insertAll (x :: entries) = (t.insert x.1 x.2).insertAll entries := rfl
    rw [hcons, ih hentries, get?_insert, if_neg hx]

theorem get?_ofList (entries : List (String × Entry)) (word : String) :
    (Trie.ofList entries).get? word = lastFor? entries word := by
  have hempty : Trie.empty.get? word = none := by
    rw [represents_empty.get?_eq, Finmap.lookup_empty]
  rw [Trie.ofList, get?_insertAll, hempty, Option.or_none]

/-- The words of a trie are those that were entered, in lower case. -/
theorem exists_lowered_of_mem_toList {entries : List (String × Entry)} {word : String} {e : Entry}
    (h : (word, e) ∈ (Trie.ofList entries).toList) : ∃ x ∈ entries, lowered x.1 = word := by
  have hrep := represents_insertAll represents_empty entries
  have hmem : word ∈ Dictionary.insertAll ∅ entries :=
    Finmap.mem_of_lookup_eq_some ((hrep.mem_toList_iff word e).1 h)
  rw [mem_insertAll_iff] at hmem
  exact hmem.resolve_left Finmap.notMem_empty

section Reordered

variable {entries order : List (String × Entry)} (h : order.Perm (Trie.ofList entries).toList)
include h

theorem lowered_of_mem_reordered {x : String × Entry} (hx : x ∈ order) : lowered x.1 = x.1 := by
  obtain ⟨y, -, hy⟩ := exists_lowered_of_mem_toList (h.mem_iff.1 hx)
  rw [← hy, lowered_lowered]

theorem nodup_reordered : (order.map Prod.fst).Nodup :=
  (h.map Prod.fst).nodup_iff.2 (Trie.ofList entries).nodup_toList

/-- The words that a trie lists, entered in any order, have the same answers. -/
theorem get?_ofList_reordered (word : String) :
    (Trie.ofList order).get? word = (Trie.ofList entries).get? word := by
  have hget : (Trie.ofList entries).get? word =
      (Trie.ofList entries).findKey? (lowered word).toList := by
    rw [Trie.get?, lowered, String.toList_ofList]
  ext e
  rw [get?_ofList, lastFor?_eq_some_iff (fun _ => lowered_of_mem_reordered h) (nodup_reordered h),
    h.mem_iff, Trie.mem_toList_iff, hget]

/-- They are as many. -/
theorem size_ofList_reordered : (Trie.ofList order).size = (Trie.ofList entries).size := by
  have hlowered : (order.map fun x => lowered x.1) = order.map Prod.fst :=
    List.map_congr_left fun _ => lowered_of_mem_reordered h
  rw [size_ofList_eq_length_iff.2 (hlowered ▸ nodup_reordered h), h.length_eq, Trie.length_toList]

end Reordered

/-! ## The English lexicon -/

namespace English

/-- The entry in the table of the English words, whatever the case of the word. -/
def lookup? (word : String) : Option Entry := entries.lookup (lowered word)

/-- The English words are written in small letters. -/
theorem small_of_mem_entries :
    ∀ x ∈ entries, ∀ c ∈ x.1.toList, 0x61 ≤ c.toNat ∧ c.toNat ≤ 0x7A := by
  -- A conjunction of truth values is checked without deep recursion.
  have hall : (entries.all fun x => x.1.toList.all fun c => 0x61 ≤ c.toNat && c.toNat ≤ 0x7A) =
      true := by
    decide +kernel
  simpa only [List.all_eq_true, Bool.and_eq_true, decide_eq_true_eq] using hall

theorem lowered_of_mem_entries : ∀ x ∈ entries, lowered x.1 = x.1 := by
  have hapart : Apart [⟨0x61, 0x7A⟩] (lowerTable.map LowerRange.letters) := by decide +kernel
  intro x hx
  have hlower : lowercase x.1.toList = x.1.toList := lowercase_of_not_listed fun c hc =>
    hapart.not_within ⟨_, List.mem_singleton_self _, small_of_mem_entries x hx c hc⟩
  rw [lowered, hlower, String.ofList_toList]

/-- No English word is listed twice. -/
theorem nodup_entries : (entries.map Prod.fst).Nodup := by
  have hsize : trie.size = entries.length := by decide +kernel
  have hlowered : entries.map Prod.fst = entries.map fun x => lowered x.1 :=
    List.map_congr_left fun x hx => (lowered_of_mem_entries x hx).symm
  rw [hlowered]
  exact size_ofList_eq_length_iff.1 hsize

theorem lookup?_eq_some_iff {word : String} {e : Entry} :
    lookup? word = some e ↔ (lowered word, e) ∈ entries := by
  rw [lookup?, List.lookup_eq_some_iff]
  refine ⟨fun ⟨before, after, hsplit, _⟩ => by simp [hsplit], fun h => ?_⟩
  obtain ⟨before, after, hsplit⟩ := List.append_of_mem h
  refine ⟨before, after, hsplit, fun x hx => bne_iff_ne.2 fun hsame => ?_⟩
  have hnodup := nodup_entries
  rw [hsplit, List.map_append, List.map_cons, List.nodup_middle, List.nodup_cons] at hnodup
  exact hnodup.1 (List.mem_append_left _ (List.mem_map.2 ⟨x, hx, hsame.symm⟩))

/-- The English lexicon answers as the table of its words. -/
theorem get?_trie (word : String) : trie.get? word = lookup? word := by
  ext e
  rw [trie, get?_ofList, lastFor?_eq_some_iff lowered_of_mem_entries nodup_entries,
    lookup?_eq_some_iff]

/-- So does a copy of it, in whatever order the words are listed. -/
theorem get?_ofList_listed {order : List (String × Entry)} (h : order.Perm trie.toList)
    (word : String) : (Trie.ofList order).get? word = lookup? word := by
  rw [← get?_trie]
  exact get?_ofList_reordered h word

end English

/-! ## Files -/

/-- What the file under a path comes to as a listing: the entries of its lines if all are right, and
otherwise why it cannot be opened, or its first line with a fault. -/
inductive Loads (files : FileSystem) (path : Path) :
    Except LoadError (List (String × Entry)) → Prop
  | all {node : FileNode} {entries : List (String × Entry)} : files path = .ok node →
      Lists node.lines entries → Loads files path (.ok entries)
  | cannotOpen {cause : OpenFailure} : files path = .error cause →
      Loads files path (.error (.cannotOpen path cause))
  | badLine {node : FileNode} {right rest : List (Except ReadFailure String)}
      {bad : Except ReadFailure String} {entries : List (String × Entry)} {fault : LineFault} :
      files path = .ok node → node.lines = right ++ bad :: rest → Lists right entries →
      Says bad (.error fault) → Loads files path (.error (.badLine (right.length + 1) fault))

section

variable {files : FileSystem} {path : Path}

theorem loads_or_exists_cause (files : FileSystem) (path : Path) :
    (∃ entries, Loads files path (.ok entries)) ∨ ∃ cause, Loads files path (.error cause) := by
  cases hnode : files path with
  | error cause => exact Or.inr ⟨_, .cannotOpen hnode⟩
  | ok node =>
    rcases lists_or_exists_fault node.lines with
      ⟨entries, hlists⟩ | ⟨right, bad, rest, entries, fault, hlines, hlists, hbad⟩
    · exact Or.inl ⟨entries, .all hnode hlists⟩
    · exact Or.inr ⟨_, .badLine hnode hlines hlists hbad⟩

theorem appendFile_of_node {node : FileNode} (h : files path = .ok node) (t : Trie) :
    t.appendFile files path = t.appendLines 1 node.lines := by
  rw [Trie.appendFile, h]

/-- A right file is entered as a whole. -/
theorem Loads.appendFile_ok {entries : List (String × Entry)} (h : Loads files path (.ok entries))
    (t : Trie) : t.appendFile files path = ⟨t.insertAll entries, .ok entries.length⟩ := by
  cases h with
  | all hnode hlists => rw [appendFile_of_node hnode, appendLines_of_lists hlists]

theorem Loads.appendFile_error {cause : LoadError} (h : Loads files path (.error cause))
    (t : Trie) : ∃ t', t.appendFile files path = ⟨t', .error cause⟩ := by
  cases h with
  | cannotOpen hnode => exact ⟨t, by rw [Trie.appendFile, hnode]⟩
  | badLine hnode hlines hlists hbad =>
    rw [appendFile_of_node hnode, hlines, appendLines_of_fault hlists hbad, Nat.add_comm]
    exact ⟨_, rfl⟩

/-- A file has the same outcome over any trie. -/
theorem Loads.outcome {result : Except LoadError (List (String × Entry))}
    (h : Loads files path result) (t : Trie) :
    (t.appendFile files path).outcome = result.map List.length := by
  cases result with
  | ok entries => rw [h.appendFile_ok, Except.map]
  | error cause =>
    obtain ⟨t', ht'⟩ := h.appendFile_error t
    rw [ht', Except.map]

/-- A file comes to one thing only. -/
theorem Loads.unique {result result' : Except LoadError (List (String × Entry))}
    (h : Loads files path result) (h' : Loads files path result') : result = result' := by
  have hsame : result.map List.length = result'.map List.length :=
    (h.outcome .empty).symm.trans (h'.outcome .empty)
  match result, result', h, h' with
  | .error cause, .error cause', _, _ => exact congrArg _ (Except.error.inj hsame)
  | .error _, .ok _, _, _ => exact nomatch hsame
  | .ok _, .error _, _, _ => exact nomatch hsame
  | .ok _, .ok _, .all hnode hlists, .all hnode' hlists' =>
    obtain rfl := Except.ok.inj (hnode.symm.trans hnode')
    rw [← entered_of_lists hlists, entered_of_lists hlists']

theorem Loads.not_error {entries : List (String × Entry)} {cause : LoadError}
    (h : Loads files path (.ok entries)) : ¬ Loads files path (.error cause) :=
  fun herror => nomatch h.unique herror

end

/-! ## The active lexicon -/

/-- The answers of a layer: those of the file under a path, if one is given. -/
inductive Layer (files : FileSystem) (otherwise : Lexicon) : Option Path → Lexicon → Prop
  | absent : Layer files otherwise none otherwise
  | file {path : Path} {entries : List (String × Entry)} : Loads files path (.ok entries) →
      Layer files otherwise (some path) (lastFor? entries)

theorem Layer.loads {files : FileSystem} {otherwise answers : Lexicon} {path : Path}
    (h : Layer files otherwise (some path) answers) :
    ∃ entries, Loads files path (.ok entries) := by
  cases h with
  | file hloads => exact ⟨_, hloads⟩

/-- A layer has no file that fails. -/
theorem Layer.not_error {files : FileSystem} {otherwise answers : Lexicon} {source : Option Path}
    {cause : LoadError} (h : Layer files otherwise source answers) :
    ¬ ∃ path, source = some path ∧ Loads files path (.error cause) := by
  rintro ⟨path, rfl, hloads⟩
  obtain ⟨entries, hright⟩ := h.loads
  exact hright.not_error hloads

namespace Checker

section

variable {order : List (String × Entry)} (horder : order.Perm English.trie.toList)
  (files : FileSystem)
include horder

/-- The base of the lexicon, or a lexicon file that fails. Words can be entered over the base: this
is what a copy of the English lexicon is for. -/
theorem loaded_cases (lexicon : Option Path) :
    (∃ path cause, lexicon = some path ∧ Loads files path (.error cause) ∧
      loaded files lexicon = .error (.lexicon cause)) ∨
    ∃ base answers, loaded files lexicon = .ok base ∧ Layer files English.lookup? lexicon answers ∧
      (base.getD English.trie).get? = answers ∧ (base.getD (.ofList order)).get? = answers := by
  cases lexicon with
  | none =>
    refine Or.inr ⟨none, English.lookup?, rfl, .absent, ?_, ?_⟩
    · rw [Option.getD_none]
      exact funext English.get?_trie
    · rw [Option.getD_none]
      exact funext (English.get?_ofList_listed horder)
  | some path =>
    rcases loads_or_exists_cause files path with ⟨entries, hloads⟩ | ⟨cause, hloads⟩
    · have hget : (Trie.ofList entries).get? = lastFor? entries := funext (get?_ofList entries)
      refine Or.inr ⟨some (.ofList entries), _, ?_, .file hloads, hget, hget⟩
      rw [loaded, hloads.appendFile_ok]
      rfl
    · obtain ⟨t, ht⟩ := hloads.appendFile_error .empty
      exact Or.inl ⟨path, cause, rfl, hloads, by rw [loaded, ht]⟩

/-- A checker comes of its two layers, or one of the files fails, the lexicon file first. -/
theorem build_cases (sources : Sources) :
    (∃ path cause, sources.lexicon = some path ∧ Loads files path (.error cause) ∧
      buildOver (.ofList order) files sources = .error (.lexicon cause)) ∨
    ∃ base, Layer files English.lookup? sources.lexicon base ∧
      ((∃ path cause, sources.extra = some path ∧ Loads files path (.error cause) ∧
        buildOver (.ofList order) files sources = .error (.extra cause)) ∨
      ∃ extra setup, Layer files (fun _ => none) sources.extra extra ∧
        buildOver (.ofList order) files sources = .ok setup ∧
        ∀ word, setup.checker.lexicon word = (extra word).or (base word)) := by
  rcases loaded_cases horder files sources.lexicon with
    ⟨path, cause, hpath, hloads, hloaded⟩ | ⟨base, answers, hloaded, hlayer, htrie, hcopy⟩
  · exact Or.inl ⟨path, cause, hpath, hloads, by rw [buildOver, hloaded]⟩
  refine Or.inr ⟨answers, hlayer, ?_⟩
  cases hextra : sources.extra with
  | none =>
    refine Or.inr ⟨_, ⟨⟨base.getD English.trie⟩, none⟩, .absent, ?_, fun word => ?_⟩
    · rw [buildOver, hloaded, hextra]
    · exact congrFun htrie word
  | some path =>
    rcases loads_or_exists_cause files path with ⟨entries, hloads⟩ | ⟨cause, hloads⟩
    · refine Or.inr ⟨_, ⟨⟨(base.getD (.ofList order)).insertAll entries⟩, some entries.length⟩,
        .file hloads, ?_, fun word => ?_⟩
      · simp only [buildOver, hloaded, hextra, hloads.appendFile_ok]
      · rw [← hcopy]
        exact get?_insertAll _ entries word
    · obtain ⟨t, ht⟩ := hloads.appendFile_error (base.getD (.ofList order))
      exact Or.inl ⟨path, cause, rfl, hloads, by simp only [buildOver, hloaded, hextra, ht]⟩

end

/-- What setting up a checker comes to is decided by its layers. -/
structure Layered (files : FileSystem) (sources : Sources) (result : Except SetupError Setup) :
    Prop where
  /-- The lexicon file fails first, -/
  lexicon_iff : ∀ cause, result = .error (.lexicon cause) ↔
    ∃ path, sources.lexicon = some path ∧ Loads files path (.error cause)
  /-- then the additional file, -/
  extra_iff : ∀ cause, result = .error (.extra cause) ↔
    (∀ path, sources.lexicon = some path → ∃ entries, Loads files path (.ok entries)) ∧
      ∃ path, sources.extra = some path ∧ Loads files path (.error cause)
  /-- and nothing else can fail. -/
  exists_ok_iff : (∃ setup, result = .ok setup) ↔
    ∀ path, sources.lexicon = some path ∨ sources.extra = some path →
      ∃ entries, Loads files path (.ok entries)
  /-- A word has the entry of the upper layer that knows it. -/
  answers : ∀ setup, result = .ok setup → ∃ base extra,
    Layer files English.lookup? sources.lexicon base ∧
    Layer files (fun _ => none) sources.extra extra ∧
    ∀ word, setup.checker.lexicon word = (extra word).or (base word)

/-- The lexicon file fails. -/
theorem layered_of_lexicon {files : FileSystem} {sources : Sources} {path : Path}
    {cause : LoadError} (hpath : sources.lexicon = some path)
    (hloads : Loads files path (.error cause)) :
    Layered files sources (.error (.lexicon cause)) where
  lexicon_iff cause' := by
    refine ⟨fun h => ?_, fun ⟨path', hpath', hloads'⟩ => ?_⟩
    · obtain rfl : cause = cause' := by simpa using h
      exact ⟨path, hpath, hloads⟩
    · obtain rfl : path = path' := Option.some.inj (hpath.symm.trans hpath')
      rw [Except.error.inj (hloads.unique hloads')]
  extra_iff cause' := by
    refine ⟨fun h => by simp at h, fun ⟨hlexicon, _⟩ => ?_⟩
    obtain ⟨entries, hright⟩ := hlexicon path hpath
    exact absurd hloads hright.not_error
  exists_ok_iff := by
    refine ⟨fun ⟨_, h⟩ => (nomatch h), fun h => ?_⟩
    obtain ⟨entries, hright⟩ := h path (Or.inl hpath)
    exact absurd hloads hright.not_error
  answers _ h := nomatch h

section

variable {files : FileSystem} {sources : Sources} {base : Lexicon}
  (hbase : Layer files English.lookup? sources.lexicon base)
include hbase

/-- The additional file fails over a base. -/
theorem layered_of_extra {path : Path} {cause : LoadError} (hpath : sources.extra = some path)
    (hloads : Loads files path (.error cause)) :
    Layered files sources (.error (.extra cause)) where
  lexicon_iff cause' := ⟨fun h => by simp at h, fun h => absurd h hbase.not_error⟩
  extra_iff cause' := by
    refine ⟨fun h => ⟨fun path hpath => (hpath ▸ hbase).loads, ?_⟩, fun ⟨_, path', hpath', h⟩ => ?_⟩
    · obtain rfl : cause = cause' := by simpa using h
      exact ⟨path, hpath, hloads⟩
    · obtain rfl : path = path' := Option.some.inj (hpath.symm.trans hpath')
      rw [Except.error.inj (hloads.unique h)]
  exists_ok_iff := by
    refine ⟨fun ⟨_, h⟩ => (nomatch h), fun h => ?_⟩
    obtain ⟨entries, hright⟩ := h path (Or.inr hpath)
    exact absurd hloads hright.not_error
  answers _ h := nomatch h

/-- Neither file fails. -/
theorem layered_of_ok {extra : Lexicon} {setup : Setup}
    (hextra : Layer files (fun _ => none) sources.extra extra)
    (hanswers : ∀ word, setup.checker.lexicon word = (extra word).or (base word)) :
    Layered files sources (.ok setup) where
  lexicon_iff cause := ⟨fun h => (nomatch h), fun h => absurd h hbase.not_error⟩
  extra_iff cause := ⟨fun h => (nomatch h), fun h => absurd h.2 hextra.not_error⟩
  exists_ok_iff := by
    refine ⟨fun _ path hpath => ?_, fun _ => ⟨setup, rfl⟩⟩
    rcases hpath with hpath | hpath
    · exact (hpath ▸ hbase).loads
    · exact (hpath ▸ hextra).loads
  answers setup' h := by
    obtain rfl := Except.ok.inj h
    exact ⟨base, extra, hbase, hextra, hanswers⟩

end

/-- A checker is set up in layers over a copy of the English lexicon in any order. -/
theorem layered_buildOver {order : List (String × Entry)} (horder : order.Perm English.trie.toList)
    (files : FileSystem) (sources : Sources) :
    Layered files sources (buildOver (.ofList order) files sources) := by
  rcases build_cases horder files sources with
    ⟨path, cause, hpath, hloads, hbuild⟩ | ⟨base, hbase, h⟩
  · rw [hbuild]
    exact layered_of_lexicon hpath hloads
  rcases h with ⟨path, cause, hpath, hloads, hbuild⟩ | ⟨extra, setup, hextra, hbuild, hanswers⟩
  · rw [hbuild]
    exact layered_of_extra hbase hpath hloads
  · rw [hbuild]
    exact layered_of_ok hbase hextra hanswers

theorem layered_build (files : FileSystem) (sources : Sources) :
    Layered files sources (build files sources) :=
  layered_buildOver (List.Perm.refl _) files sources

/-- Setting up a checker fails with the lexicon file if that fails, else with the additional file if
that fails, and else succeeds. A word then has its last entry in the additional file, or else its
last entry in the lexicon file, or in the table of the English words if no lexicon file is given.
This is so in whatever order the English words are copied. -/
theorem build_layers (files : FileSystem) (sources : Sources) :
    Layered files sources (build files sources) ∧
    ∀ order : List (String × Entry), order.Perm English.trie.toList →
      Layered files sources (buildOver (.ofList order) files sources) :=
  ⟨layered_build files sources, fun _ horder => layered_buildOver horder files sources⟩

/-- A file of two words for cats. -/
def catFile : FileSystem := fun path =>
  if path = encode "cats" then .ok (.file (encode "cat|N|UNC\n\nCat|N|PL\n")) else .error .missing

/-- The last entry of the file counts for cats, and the dogs are the English ones, also where the
English words are copied from the last to the first. -/
theorem catFile_layers :
    English.trie.toList.reverse.Perm English.trie.toList ∧
    ∀ copy ∈ [English.copy, .ofList English.trie.toList.reverse],
      ∃ setup, buildOver copy catFile ⟨none, some (encode "cats")⟩ = .ok setup ∧
        setup.checker.lexicon "CAT" = some ⟨.noun, .plural⟩ ∧
        setup.checker.lexicon "dog" = some ⟨.noun, .singularCountable⟩ := by
  have hnode : catFile (encode "cats") = .ok (.file (encode "cat|N|UNC\n\nCat|N|PL\n")) :=
    if_pos rfl
  have hlines : (FileNode.file (encode "cat|N|UNC\n\nCat|N|PL\n")).lines =
      [.ok "cat|N|UNC", .ok "", .ok "Cat|N|PL"] := by decide +kernel
  have hlists : Lists (FileNode.file (encode "cat|N|UNC\n\nCat|N|PL\n")).lines
      [("cat", ⟨.noun, .uncountable⟩), ("Cat", ⟨.noun, .plural⟩)] := by
    rw [hlines]
    exact .entry (says_iff.2 (by decide +kernel)) (.skip (says_iff.2 (by decide +kernel))
      (.entry (says_iff.2 (by decide +kernel)) .nil))
  have hanswers {result : Except SetupError Setup}
      (h : Layered catFile ⟨none, some (encode "cats")⟩ result) :
      ∃ setup, result = .ok setup ∧ setup.checker.lexicon "CAT" = some ⟨.noun, .plural⟩ ∧
        setup.checker.lexicon "dog" = some ⟨.noun, .singularCountable⟩ := by
    obtain ⟨setup, hbuild⟩ := h.exists_ok_iff.2 fun path hpath => by
      obtain rfl : encode "cats" = path := by simpa using hpath
      exact ⟨_, .all hnode hlists⟩
    obtain ⟨base, extra, hbase, hextra, hword⟩ := h.answers setup hbuild
    cases hbase with
    | absent =>
      cases hextra with
      | file hloads =>
        obtain rfl := Except.ok.inj (hloads.unique (.all hnode hlists))
        exact ⟨setup, hbuild, (hword "CAT").trans (by decide +kernel),
          (hword "dog").trans (by decide +kernel)⟩
  have horder := List.reverse_perm English.trie.toList
  obtain ⟨hbuild, hbuildOver⟩ := build_layers catFile ⟨none, some (encode "cats")⟩
  exact ⟨horder, List.forall_mem_cons.2 ⟨hanswers hbuild,
    List.forall_mem_singleton.2 (hanswers (hbuildOver _ horder))⟩⟩

end Checker

end Concord
