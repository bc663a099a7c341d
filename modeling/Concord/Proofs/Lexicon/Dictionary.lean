import Mathlib.Data.Finmap
import Concord.Proofs.Lexicon.Listing
import Concord.Proofs.Text.LowerForms

/-!
# A trie is a finite map

A `Dictionary` is a finite map from words in lower case to entries. Whatever is entered into a trie,
word by word or from listings with and without faults, the trie stays the representation of one
dictionary, in which a later entry replaces an earlier one for the same word: it answers as the
dictionary does, counts its words and lists each of them once.

The order of the letters in a row, which every trie carries, is what makes the listing match the
look-up: a letter that is not the first found of a row does not come later in it.

Main statements: `mem_toList_iff` and `nodup_toList`, the listing holds exactly what is found;
`represents_insert`, an insertion is an insertion into the dictionary; `run_refines`, so are any
operations in a row.
-/

namespace Concord

open Text

/-! ## Listing -/

namespace Forest

/-- Every word of a row begins with a letter, and with one beyond `a` if the row is beyond it. -/
theorem exists_cons_of_mem_toList {w : List Char} {e : Entry} {f : Forest}
    (h : (w, e) ∈ f.toList) :
    ∃ c cs, w = c :: cs ∧ ∀ a : Char, f.Beyond a → a.toNat < c.toNat := by
  induction f generalizing w with
  | empty => simp [toList] at h
  | branch letter entry below next _ ihn =>
    simp only [toList, List.mem_append, List.mem_map, Option.mem_toList, Prod.mk.injEq] at h
    rcases h with (⟨_, -, rfl, -⟩ | ⟨⟨v, _⟩, -, rfl, -⟩) | hnext
    · exact ⟨letter, [], rfl, fun a ha => ha.1⟩
    · exact ⟨letter, v, rfl, fun a ha => ha.1⟩
    · obtain ⟨c, cs, hw, hbeyond⟩ := ihn hnext
      exact ⟨c, cs, hw, fun a ha => hbeyond a ha.2⟩

/-- The words of a row beyond a letter do not begin with it. -/
theorem not_mem_toList_of_beyond {c : Char} {cs : List Char} {e : Entry} {f : Forest}
    (h : f.Beyond c) : (c :: cs, e) ∉ f.toList := by
  intro hmem
  obtain ⟨d, ds, hw, hbeyond⟩ := exists_cons_of_mem_toList hmem
  obtain ⟨rfl, -⟩ := List.cons.inj hw
  exact Nat.lt_irrefl _ (hbeyond c h)

/-- The words listed are those found. -/
theorem mem_toList_iff {c : Char} {cs : List Char} {e : Entry} {f : Forest} (h : f.Sorted) :
    (c :: cs, e) ∈ f.toList ↔ find? c cs f = some e := by
  induction f generalizing c cs with
  | empty => simp [toList, find?]
  | branch letter entry below next ihb ihn =>
    obtain ⟨hbelow, hnext, hbeyond⟩ := h
    by_cases hc : c = letter
    · subst hc
      have hlater : (c :: cs, e) ∉ next.toList := not_mem_toList_of_beyond hbeyond
      cases cs with
      | nil =>
        have hlonger : ([], e) ∉ below.toList := by
          intro hmem
          obtain ⟨d, ds, hw, -⟩ := exists_cons_of_mem_toList hmem
          simp at hw
        simp [toList, find?, hlater, hlonger]
      | cons d ds => simp [toList, find?, hlater, ihb hbelow]
    · rw [find?_of_ne hc, ← ihn hnext]
      simp [toList, Ne.symm hc]

/-- No word is listed twice. -/
theorem nodup_toList {f : Forest} (h : f.Sorted) : (f.toList.map Prod.fst).Nodup := by
  induction f with
  | empty => exact List.nodup_nil
  | branch letter entry below next ihb ihn =>
    obtain ⟨hbelow, hnext, hbeyond⟩ := h
    have hsplit : (branch letter entry below next).toList.map Prod.fst =
        entry.toList.map (fun _ => [letter]) ++
          (below.toList.map Prod.fst).map (letter :: ·) ++ next.toList.map Prod.fst := by
      simp [toList, Function.comp_def]
    have hhere : (entry.toList.map fun _ => [letter]).Nodup := by cases entry <;> simp
    have hlonger : ((below.toList.map Prod.fst).map (letter :: ·)).Nodup :=
      (ihb hbelow).map fun _ _ => List.tail_eq_of_cons_eq
    have hapart : List.Disjoint (entry.toList.map fun _ => [letter])
        ((below.toList.map Prod.fst).map (letter :: ·)) := by
      intro w hw hw'
      obtain ⟨-, -, rfl⟩ := List.mem_map.1 hw
      obtain ⟨v, hv, hnil⟩ := List.mem_map.1 hw'
      obtain ⟨⟨v, e⟩, hmem, rfl⟩ := List.mem_map.1 hv
      obtain ⟨d, ds, hcons, -⟩ := exists_cons_of_mem_toList hmem
      simp [hcons] at hnil
    have hlater : List.Disjoint (entry.toList.map (fun _ => [letter]) ++
        (below.toList.map Prod.fst).map (letter :: ·)) (next.toList.map Prod.fst) := by
      intro w hw hw'
      obtain ⟨⟨v, e⟩, hmem, rfl⟩ := List.mem_map.1 hw'
      have hletter : ∃ cs, v = letter :: cs := by
        rcases List.mem_append.1 hw with hw | hw
        · obtain ⟨-, -, hv⟩ := List.mem_map.1 hw
          exact ⟨[], hv.symm⟩
        · obtain ⟨u, -, hv⟩ := List.mem_map.1 hw
          exact ⟨u, hv.symm⟩
      obtain ⟨cs, rfl⟩ := hletter
      exact not_mem_toList_of_beyond hbeyond hmem
    rw [hsplit]
    exact (hhere.append hlonger hapart).append (ihn hnext) hlater

end Forest

namespace Trie

/-- The words listed are those found. -/
theorem mem_toList_iff {t : Trie} {word : String} {e : Entry} :
    (word, e) ∈ t.toList ↔ t.findKey? word.toList = some e := by
  have hforest : (∃ x ∈ t.forest.toList, (String.ofList x.1, x.2) = (word, e)) ↔
      (word.toList, e) ∈ t.forest.toList := by
    refine ⟨fun h => ?_, fun h => ⟨_, h, congrArg (·, e) String.ofList_toList⟩⟩
    obtain ⟨x, hmem, heq⟩ := h
    obtain ⟨rfl, rfl⟩ := Prod.mk.inj heq
    rwa [String.toList_ofList]
  rw [toList, List.mem_append, List.mem_map, List.mem_map]
  refine (or_congr_right hforest).trans ?_
  cases hword : word.toList with
  | nil =>
    have hempty : "" = word := by rw [← String.toList_inj, hword]; rfl
    have hnone : ([], e) ∉ t.forest.toList := by
      intro hmem
      obtain ⟨c, cs, hw, -⟩ := Forest.exists_cons_of_mem_toList hmem
      simp at hw
    simp [findKey?, hempty, hnone]
  | cons c cs =>
    have hne : "" ≠ word := by
      intro h
      rw [← h] at hword
      simp at hword
    simp [findKey?, hne, Forest.mem_toList_iff t.sorted]

/-- No word is listed twice. -/
theorem nodup_toList (t : Trie) : (t.toList.map Prod.fst).Nodup := by
  have hsplit : t.toList.map Prod.fst =
      t.atEmpty.toList.map (fun _ => "") ++ (t.forest.toList.map Prod.fst).map String.ofList := by
    simp [toList, Function.comp_def]
  have hhere : (t.atEmpty.toList.map fun _ => "").Nodup := by cases t.atEmpty <;> simp
  have hlonger : ((t.forest.toList.map Prod.fst).map String.ofList).Nodup :=
    (Forest.nodup_toList t.sorted).map fun _ _ => String.ofList_injective
  rw [hsplit]
  refine hhere.append hlonger fun w hw hw' => ?_
  obtain ⟨-, -, rfl⟩ := List.mem_map.1 hw
  obtain ⟨v, hv, hnil⟩ := List.mem_map.1 hw'
  obtain ⟨⟨v, e⟩, hmem, rfl⟩ := List.mem_map.1 hv
  obtain ⟨c, cs, hcons, -⟩ := Forest.exists_cons_of_mem_toList hmem
  simp [hcons] at hnil

end Trie

/-! ## Dictionaries -/

/-- A finite map from words in lower case to their entries. -/
abbrev Dictionary := Finmap fun _ : String => Entry

/-- A word in lower case. -/
def lowered (word : String) : String := .ofList (lowercase word.toList)

/-- Lower-casing a word twice comes to lower-casing it once. -/
theorem lowered_lowered (word : String) : lowered (lowered word) = lowered word := by
  rw [lowered, lowered, String.toList_ofList, lowercase_lowercase]

/-- Sets the entries of some words, in order. -/
def Dictionary.insertAll (d : Dictionary) (entries : List (String × Entry)) : Dictionary :=
  entries.foldl (fun d (word, e) => d.insert (lowered word) e) d

/-- A trie answers for every word, as it is written, what a dictionary holds. -/
def Represents (t : Trie) (d : Dictionary) : Prop :=
  ∀ word : String, t.findKey? word.toList = d.lookup word

theorem represents_empty : Represents Trie.empty ∅ := by
  intro word
  rw [Finmap.lookup_empty]
  cases hword : word.toList <;> rfl

/-- An insertion into a trie is an insertion into the dictionary. -/
theorem represents_insert {t : Trie} {d : Dictionary} (h : Represents t d) (word : String)
    (e : Entry) : Represents (t.insert word e) (d.insert (lowered word) e) := by
  intro other
  by_cases heq : other = lowered word
  · subst heq
    rw [Finmap.lookup_insert, Trie.insert, lowered, String.toList_ofList]
    exact Trie.findKey?_insertKey_self t _ e
  · have hne : other.toList ≠ lowercase word.toList := by
      intro hkey
      rw [lowered, ← hkey, String.ofList_toList] at heq
      exact heq rfl
    rw [Finmap.lookup_insert_of_ne d heq, Trie.insert, Trie.findKey?_insertKey_of_ne t e hne]
    exact h other

theorem represents_insertAll {t : Trie} {d : Dictionary} (h : Represents t d)
    (entries : List (String × Entry)) : Represents (t.insertAll entries) (d.insertAll entries) := by
  induction entries generalizing t d with
  | nil => exact h
  | cons x entries ih => exact ih (represents_insert h x.1 x.2)

namespace Represents

variable {t : Trie} {d : Dictionary}

/-- Words are looked up in lower case. -/
theorem get?_eq (h : Represents t d) (word : String) : t.get? word = d.lookup (lowered word) := by
  rw [← h, lowered, String.toList_ofList]
  rfl

theorem contains_iff (h : Represents t d) (word : String) :
    t.contains word = true ↔ lowered word ∈ d := by
  rw [Trie.contains, h.get?_eq, Finmap.lookup_isSome]

theorem mem_toList_iff (h : Represents t d) (word : String) (e : Entry) :
    (word, e) ∈ t.toList ↔ d.lookup word = some e := by
  rw [Trie.mem_toList_iff, h]

/-- The count of a trie is the number of words in the dictionary. -/
theorem size_eq (h : Represents t d) : t.size = d.keys.card := by
  have hkeys : (t.toList.map Prod.fst).toFinset = d.keys := by
    ext word
    rw [List.mem_toFinset, Finmap.mem_keys, Finmap.mem_iff]
    simp [h.mem_toList_iff]
  rw [← hkeys, List.toFinset_card_of_nodup t.nodup_toList, List.length_map, t.length_toList]

end Represents

/-- A word is in a dictionary where one with the same lower-case form was entered. -/
theorem mem_insertAll_iff {d : Dictionary} {entries : List (String × Entry)} {word : String} :
    word ∈ d.insertAll entries ↔ word ∈ d ∨ ∃ x ∈ entries, lowered x.1 = word := by
  induction entries generalizing d with
  | nil => simp [Dictionary.insertAll]
  | cons x entries ih =>
    have hcons : d.insertAll (x :: entries) =
        Dictionary.insertAll (d.insert (lowered x.1) x.2) entries := rfl
    rw [hcons, ih, Finmap.mem_insert, List.exists_mem_cons_iff, or_left_comm, ← or_assoc,
      eq_comm]

/-- A trie of entries counts them all if no two words are the same in lower case. -/
theorem size_ofList_eq_length_iff {entries : List (String × Entry)} :
    (Trie.ofList entries).size = entries.length ↔ (entries.map fun x => lowered x.1).Nodup := by
  have hkeys : (Dictionary.insertAll ∅ entries).keys =
      (entries.map fun x => lowered x.1 : Multiset String).toFinset := by
    ext word
    rw [Finmap.mem_keys, mem_insertAll_iff]
    simp [Finmap.notMem_empty]
  rw [Trie.ofList, (represents_insertAll represents_empty entries).size_eq, hkeys,
    ← List.length_map (fun x : String × Entry => lowered x.1), ← Multiset.coe_card,
    Multiset.toFinset_card_eq_card_iff_nodup, Multiset.coe_nodup]

/-! ## Operations -/

/-- What can be done to a trie: a word is entered, or the lines of a listing are loaded, as far as
they go. -/
inductive Operation where
  | insert (word : String) (e : Entry)
  | load (lines : List (Except ReadFailure String))

namespace Operation

/-- The trie after an operation. -/
def apply (t : Trie) : Operation → Trie
  | insert word e => t.insert word e
  | load lines => (t.appendLines 1 lines).trie

/-- The entries that an operation sets. -/
def entries : Operation → List (String × Entry)
  | insert word e => [(word, e)]
  | load lines => Listing.entered lines

/-- The trie after some operations, beginning with the empty one. -/
def run (ops : List Operation) : Trie := ops.foldl apply .empty

/-- The dictionary of the entries that some operations set. -/
def dictionary (ops : List Operation) : Dictionary :=
  Dictionary.insertAll ∅ (ops.flatMap entries)

theorem apply_eq (t : Trie) (op : Operation) : op.apply t = t.insertAll op.entries := by
  cases op with
  | insert word e => rfl
  | load lines => exact trie_appendLines t 1 lines

theorem foldl_apply (t : Trie) (ops : List Operation) :
    ops.foldl apply t = t.insertAll (ops.flatMap entries) := by
  induction ops generalizing t with
  | nil => rfl
  | cons op ops ih =>
    rw [List.foldl_cons, ih, apply_eq, List.flatMap_cons, Trie.insertAll, Trie.insertAll,
      Trie.insertAll, List.foldl_append]

theorem represents_run (ops : List Operation) : Represents (run ops) (dictionary ops) := by
  rw [run, foldl_apply]
  exact represents_insertAll represents_empty _

end Operation

open Operation in
/-- Whatever is entered into a trie, it answers as the dictionary of the entries, for every word in
any case. Its count is the number of words in the dictionary, and it lists each of them once. -/
theorem run_refines (ops : List Operation) :
    (∀ word, (run ops).get? word = (dictionary ops).lookup (lowered word) ∧
      (run ops).lexicon word = (dictionary ops).lookup (lowered word) ∧
      ((run ops).contains word = true ↔ lowered word ∈ dictionary ops)) ∧
    (∀ word, (run ops).contains word = true ↔
      ∃ x ∈ ops.flatMap entries, lowered x.1 = lowered word) ∧
    (run ops).size = (dictionary ops).keys.card ∧
    ((run ops).isEmpty = true ↔ (dictionary ops).keys.card = 0) ∧
    ((run ops).toList.map Prod.fst).Nodup ∧
    ∀ word e, (word, e) ∈ (run ops).toList ↔ (dictionary ops).lookup word = some e := by
  have h := represents_run ops
  refine ⟨fun word => ⟨h.get?_eq word, h.get?_eq word, h.contains_iff word⟩, fun word => ?_,
    h.size_eq, ?_, (run ops).nodup_toList, h.mem_toList_iff⟩
  · rw [h.contains_iff, dictionary, mem_insertAll_iff]
    simp [Finmap.notMem_empty]
  · rw [← h.size_eq, Trie.isEmpty, beq_iff_eq]

end Concord
