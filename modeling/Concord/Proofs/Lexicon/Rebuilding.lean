import Concord.Proofs.Lexicon.Layers

/-!
# Rebuilding a lexicon

A lexicon is copied by listing its words and entering them again. They are lower-cased once more on
their way in, and a list may come in any order. Neither makes a difference, because a lexicon lists
exactly the words in lower case that it finds (`mem_toList_ofList_iff`), each of them once: so no
two of them meet in one key, none of them moves to another, and what is found decides what is
counted and what is listed.

Main statements: `alike_of_get?`, lexicons with the same answers cannot be told apart;
`rebuilt_alike`, a lexicon that is built from the words of another cannot be told from it.
-/

namespace Concord

open Text

namespace Trie

/-- Two tries that cannot be told apart by what they answer, count and list. -/
structure Alike (t t' : Trie) : Prop where
  get?_eq (word : String) : t.get? word = t'.get? word
  size_eq : t.size = t'.size
  toList_perm : t.toList.Perm t'.toList

/-- A word in lower case is found under itself. -/
theorem get?_of_lowered {word : String} (h : lowered word = word) (t : Trie) :
    t.get? word = t.findKey? word.toList := by
  have hkey : lowercase word.toList = word.toList := by
    rw [← String.ofList_inj, String.ofList_toList]
    exact h
  rw [get?, hkey]

/-- The words listed are those in lower case that are found. -/
theorem mem_toList_ofList_iff {entries : List (String × Entry)} {word : String} {e : Entry} :
    (word, e) ∈ (ofList entries).toList ↔
      lowered word = word ∧ (ofList entries).get? word = some e := by
  constructor
  · intro h
    obtain ⟨x, -, hx⟩ := exists_lowered_of_mem_toList h
    have hlower : lowered word = word := by rw [← hx, lowered_lowered]
    exact ⟨hlower, by rw [get?_of_lowered hlower, mem_toList_iff.1 h]⟩
  · rintro ⟨hlower, hget⟩
    rwa [mem_toList_iff, ← get?_of_lowered hlower]

/-- Tries of entered words that answer alike cannot be told apart. -/
theorem alike_of_get? {entries entries' : List (String × Entry)}
    (h : ∀ word, (ofList entries).get? word = (ofList entries').get? word) :
    (ofList entries).Alike (ofList entries') := by
  have hperm : (ofList entries).toList.Perm (ofList entries').toList := by
    rw [List.perm_ext_iff_of_nodup (nodup_toList _).of_map (nodup_toList _).of_map]
    intro x
    rw [mem_toList_ofList_iff, mem_toList_ofList_iff, h]
  have hsize : (ofList entries).size = (ofList entries').size := by
    rw [← length_toList, ← length_toList, hperm.length_eq]
  exact ⟨h, hsize, hperm⟩

end Trie

/-- A lexicon of entered words is the same again when the words that it lists are entered into an
empty one, in any order. The copy of the English lexicon is made so. -/
theorem rebuilt_alike :
    (∀ entries order : List (String × Entry), order.Perm (Trie.ofList entries).toList →
      (Trie.ofList order).Alike (Trie.ofList entries)) ∧
    English.copy.Alike English.trie := by
  have hrebuilt (entries order : List (String × Entry))
      (h : order.Perm (Trie.ofList entries).toList) :
      (Trie.ofList order).Alike (Trie.ofList entries) :=
    Trie.alike_of_get? fun word => get?_ofList_reordered h word
  exact ⟨hrebuilt, hrebuilt English.entries English.trie.toList (List.Perm.refl _)⟩

/-- Entries of three words, one of which is entered twice. In lower case one of them ends in a final
sigma, and another has a letter more. -/
def placeEntries : List (String × Entry) :=
  [("ΟΔΟΣ", ⟨.noun, .singularCountable⟩), ("Road", ⟨.noun, .plural⟩), ("İ", ⟨.noun, .any⟩),
    ("rOAD", ⟨.verb, .plural⟩)]

/-- The words that are listed, from the last to the first. -/
def placesBackward : List (String × Entry) :=
  [("οδος", ⟨.noun, .singularCountable⟩), ("road", ⟨.verb, .plural⟩), ("i\u0307", ⟨.noun, .any⟩)]

/-- Entered again in this order, the three words are found, counted and listed as before. -/
theorem placesBackward_rebuilt :
    placesBackward.Perm (Trie.ofList placeEntries).toList ∧
    (Trie.ofList placesBackward).get? "ΟΔΟΣ" = some ⟨.noun, .singularCountable⟩ ∧
    (Trie.ofList placesBackward).get? "οδοσ" = none ∧
    (Trie.ofList placesBackward).size = 3 ∧
    (Trie.ofList placesBackward).toList.Perm placesBackward := by
  have horder : placesBackward.Perm (Trie.ofList placeEntries).toList := by decide +kernel
  have hfound : (Trie.ofList placeEntries).get? "ΟΔΟΣ" =
      some ⟨.noun, .singularCountable⟩ := by
    decide +kernel
  have hmissing : (Trie.ofList placeEntries).get? "οδοσ" = none := by decide +kernel
  have halike := rebuilt_alike.1 placeEntries placesBackward horder
  refine ⟨horder, ?_, ?_, ?_, ?_⟩
  · rw [halike.get?_eq, hfound]
  · rw [halike.get?_eq, hmissing]
  · rw [halike.size_eq, ← Trie.length_toList, ← horder.length_eq]
    rfl
  · exact halike.toList_perm.trans horder.symm

end Concord
