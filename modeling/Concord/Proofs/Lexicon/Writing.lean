import Concord.Proofs.Lexicon.Layers
import Concord.Proofs.Lexicon.Layout

/-!
# Writing a lexicon file

The words of a lexicon, each with the codes of its entry on a line of its own, are a lexicon file
again. Not every word can be written so: the line must not be passed over as a comment, the word
must end where its field ends, and no blank at its ends may be lost (`Writable`). But every word
that comes from a lexicon file can, because it stood in the first field of a line, and in lower case
too, because no letter becomes a blank, a bar or a number sign.

Main statements: `Writable.says_entryLine`, the line of an entry says the entry;
`writable_of_mem_toList`, a loaded lexicon holds writable words only; `append_written`, what is
written of a loaded lexicon, in any order, is loaded as the same lexicon.
-/

namespace Concord

open Text Listing

/-! ## Words that can be written -/

/-- A word that can be the first field of a line, and is read from it unchanged. -/
structure Writable (word : List Char) : Prop where
  ne_nil : word ≠ []
  trimmed : Trimmed isBlank word
  not_comment : word.head? ≠ some '#'
  no_bar : '|' ∉ word
  no_feed : '\n' ∉ word

/-- Lower-casing makes no bar, no number sign and no blank. -/
theorem not_form {c : Char} (hc : c = '|' ∨ c = '#' ∨ isBlank c = true) :
    ¬ Within c.toNat formRanges := by
  have hapart : Apart formRanges [⟨0x7C, 0x7C⟩, ⟨0x23, 0x23⟩] := by decide +kernel
  intro hform
  rcases hc with rfl | rfl | hblank
  · exact hapart.not_within hform ⟨_, List.mem_cons_self, by decide⟩
  · exact hapart.not_within hform ⟨⟨0x23, 0x23⟩, by decide, by decide⟩
  · have hdelimiter := isDelimiter_of_form hform
    simp [isDelimiter_of_isBlank hblank] at hdelimiter

/-- A word that can be written can be written in lower case. -/
theorem Writable.lowercase {word : List Char} (h : Writable word) : Writable (lowercase word) where
  ne_nil := mt lowercaseAfter_eq_nil.1 h.ne_nil
  trimmed := by
    refine trimmed_lowercase (fun c hform => ?_) h.trimmed
    rw [← Bool.not_eq_true]
    exact fun hblank => not_form (Or.inr (Or.inr hblank)) hform
  not_comment := by
    intro hhead
    obtain ⟨c, after, hc, hmem⟩ := exists_head?_lowercase hhead
    rcases eq_or_within_of_mem_lowerChar hmem with rfl | hform
    · exact h.not_comment hc
    · exact not_form (Or.inr (Or.inl rfl)) hform
  no_bar := fun hmem =>
    (mem_or_within_of_mem_lowercase hmem).elim h.no_bar (not_form (Or.inl rfl))
  no_feed := fun hmem =>
    (mem_or_within_of_mem_lowercase hmem).elim h.no_feed (not_form (Or.inr (Or.inr (by decide))))

namespace Listing

/-- The word of a line begins it, and a bar comes after the word. -/
theorem Fields.word_first {content word category : List Char} {number : Option (List Char)}
    (h : Fields content word category number) :
    '|' ∉ word ∧ ∃ rest, content = word ++ '|' :: rest := by
  cases h with
  | two hword _ => exact ⟨hword, _, rfl⟩
  | three hword _ _ => exact ⟨hword, _, rfl⟩

/-- The word that a line gives can be written, if the line holds no line feed. -/
theorem Says.writable {line : String} {x : String × Entry} (h : Says (.ok line) (.ok (some x)))
    (hfeed : '\n' ∉ line.toList) : Writable x.1.toList := by
  cases h with
  | @entry _ content word _ _ _ _ hcontent hfields hne _ _ =>
    obtain ⟨hbar, rest, hfirst⟩ := hfields.word_first
    have htrim : Trimmed isBlank content := hcontent.trimmed ▸ trimmed_strip _ _
    have hword : word ≠ [] := by
      rintro rfl
      exact hne rfl
    have hhead : content.head? = word.head? := by
      obtain ⟨c, cs, rfl⟩ := List.exists_cons_of_ne_nil hword
      rw [hfirst]
      rfl
    rw [String.toList_ofList]
    refine ⟨hne, trimmed_strip _ _, ?_, mt mem_of_mem_strip hbar, fun hmem => hfeed ?_⟩
    · rw [trim, head?_strip fun a ha => htrim.1 a (hhead.trans ha), ← hhead]
      exact hcontent.not_comment
    · have hmem' : '\n' ∈ content := by
        rw [hfirst]
        exact List.mem_append_left _ (mem_of_mem_strip hmem)
      rw [← hcontent.trimmed] at hmem'
      exact mem_of_mem_strip hmem'

end Listing

/-- The parts between line feeds hold none when they are read. -/
theorem not_feed_of_mem_parts {content : Bytes} {line : String}
    (h : .ok line ∈ (parts content).map FileNode.spell) : '\n' ∉ line.toList := by
  obtain ⟨bytes, hpart, hspell⟩ := List.mem_map.1 h
  have hencode : encode line = bytes := by
    refine decode?_eq_some_iff.1 ?_
    unfold FileNode.spell at hspell
    split at hspell
    · next s hs =>
      rw [hs, Except.ok.inj hspell]
    · simp at hspell
  intro hmem
  have hbyte : (10 : UInt8) ∈ bytes := by
    rw [← hencode]
    exact (mem_encode_iff (by decide) (by decide)).2 hmem
  exact absurd (not_break_of_mem_pieces hpart 10 hbyte) (by decide)

/-- The words of a lexicon loaded from a file can be written. -/
theorem writable_of_mem_toList {content : Bytes} {x : String × Entry}
    (h : x ∈ (Trie.empty.append content).trie.toList) : Writable x.1.toList := by
  rw [append_eq_parts, trie_appendLines] at h
  obtain ⟨y, hentered, hlower⟩ := exists_lowered_of_mem_toList h
  obtain ⟨line, hline, hsays⟩ := exists_says_of_mem_entered hentered
  cases line with
  | error cause => nomatch hsays
  | ok line =>
    have hy : Writable y.1.toList := hsays.writable (not_feed_of_mem_parts hline)
    rw [← hlower, lowered, String.toList_ofList]
    exact hy.lowercase

/-! ## Lines that are written -/

/-- The line of an entry: the word, the code of its category and the code of its number. -/
def entryLine (x : String × Entry) : String :=
  x.1 ++ "|" ++ x.2.category.code ++ "|" ++ x.2.number.code

/-- The lines of some entries. -/
def written (entries : List (String × Entry)) : String := unlines (entries.map entryLine)

theorem toList_entryLine (x : String × Entry) :
    (entryLine x).toList =
      x.1.toList ++ '|' :: (x.2.category.code.toList ++ '|' :: x.2.number.code.toList) := by
  simp [entryLine]

theorem not_mem_category_code (c : Category) : '|' ∉ c.code.toList ∧ '\n' ∉ c.code.toList := by
  cases c <;> decide

theorem not_mem_number_code (n : Number) : '|' ∉ n.code.toList ∧ '\n' ∉ n.code.toList := by
  cases n <;> decide

/-- The code of a number ends with a letter. -/
theorem exists_number_code_last (n : Number) :
    ∃ last, n.code.toList = n.code.toList.dropLast ++ [last] ∧ isBlank last = false := by
  cases n <;> exact ⟨_, rfl, by decide⟩

namespace Writable

variable {x : String × Entry} (h : Writable x.1.toList)
include h

theorem head?_entryLine : (entryLine x).toList.head? = x.1.toList.head? := by
  obtain ⟨c, cs, hword⟩ := List.exists_cons_of_ne_nil h.ne_nil
  rw [toList_entryLine, hword]
  rfl

theorem trimmed_entryLine : Trimmed isBlank (entryLine x).toList := by
  refine ⟨fun a ha => h.trimmed.1 a (h.head?_entryLine ▸ ha), fun a ha => ?_⟩
  obtain ⟨last, hcode, hlast⟩ := exists_number_code_last x.2.number
  rw [toList_entryLine, hcode, ← List.cons_append, ← List.append_assoc, ← List.cons_append,
    ← List.append_assoc, List.getLast?_concat] at ha
  exact Option.some.inj ha ▸ hlast

/-- The line of an entry says the entry. -/
theorem says_entryLine : Says (.ok (entryLine x)) (.ok (some x)) := by
  have hcategory : Names x.2.category.aliases x.2.category.code.toList :=
    Category.ofCode?_eq_some_iff.1 (Category.ofCode?_code _)
  have hnumber : Names x.2.number.aliases x.2.number.code.toList :=
    Number.ofCode?_eq_some_iff.1 (Number.ofCode?_code _)
  have hword : trim x.1.toList = x.1.toList := strip_of_trimmed h.trimmed
  have hcontent : Content (entryLine x) (entryLine x).toList := by
    refine ⟨strip_of_trimmed h.trimmed_entryLine, ?_, h.head?_entryLine ▸ h.not_comment⟩
    rw [toList_entryLine]
    simp [h.ne_nil]
  have hfields : Fields (entryLine x).toList x.1.toList x.2.category.code.toList
      (some x.2.number.code.toList) := by
    rw [toList_entryLine]
    exact .three h.no_bar (not_mem_category_code _).1 (not_mem_number_code _).1
  have hsays := Says.entry hcontent hfields (hword.symm ▸ h.ne_nil) hcategory (.named hnumber)
  rwa [hword, String.ofList_toList] at hsays

theorem not_feed_entryLine : '\n' ∉ (entryLine x).toList := by
  simp [toList_entryLine, h.no_feed, not_mem_category_code, not_mem_number_code]

end Writable

/-- Lines that are written are the parts of what is written, but for the last, which is empty. -/
theorem parts_encode_unlines {lines : List String} (h : ∀ line ∈ lines, '\n' ∉ line.toList) :
    parts (encode (unlines lines)) = lines.map encode ++ [[]] := by
  have hfeed : ∀ bytes ∈ lines.map encode, 10 ∉ bytes := List.forall_mem_map.2 fun line hline =>
    mt (mem_encode_iff (by decide) (by decide)).1 (h line hline)
  have hbytes : encode (unlines lines) = (lines.map encode).flatMap (· ++ [10]) := by
    have hfeed : String.utf8EncodeChar '\n' = [10] := by decide
    simp [encode, unlines, hfeed, List.flatMap_map, List.flatMap_assoc]
  rw [hbytes, parts, pieces_ended hfeed]

/-- Entries that are written are all entered. -/
theorem append_encode_written {entries : List (String × Entry)}
    (h : ∀ x ∈ entries, Writable x.1.toList) (t : Trie) :
    t.append (encode (written entries)) = ⟨t.insertAll entries, .ok entries.length⟩ := by
  have hlists : Lists (((entries.map entryLine).map encode).map FileNode.spell) entries := by
    induction entries with
    | nil => exact .nil
    | cons x entries ih =>
      obtain ⟨hx, hentries⟩ := List.forall_mem_cons.1 h
      rw [List.map_cons, List.map_cons, List.map_cons, spell_encode]
      exact .entry hx.says_entryLine (ih hentries)
  have hfeed : ∀ line ∈ entries.map entryLine, '\n' ∉ line.toList := by
    intro line hline
    obtain ⟨x, hx, rfl⟩ := List.mem_map.1 hline
    exact (h x hx).not_feed_entryLine
  rw [written, append_eq_of_parts (parts_encode_unlines hfeed), appendLines_of_lists hlists]

/-- The words that are loaded from a file, written in any order with the codes of their entries, are
loaded again as a lexicon with the same answers and the same number of words. -/
theorem append_written (content : Bytes) (order : List (String × Entry))
    (h : order.Perm (Trie.empty.append content).trie.toList) :
    ∃ t, Trie.empty.append (encode (written order)) =
        ⟨t, .ok (Trie.empty.append content).trie.size⟩ ∧
      (∀ word, t.get? word = (Trie.empty.append content).trie.get? word) ∧
      t.size = (Trie.empty.append content).trie.size := by
  have hwritable : ∀ x ∈ order, Writable x.1.toList := fun x hx =>
    writable_of_mem_toList (h.mem_iff.1 hx)
  have htrie : (Trie.empty.append content).trie = .ofList (entered (FileNode.linesOf content)) :=
    trie_appendLines .empty 1 _
  have hlength : order.length = (Trie.empty.append content).trie.size := by
    rw [h.length_eq, Trie.length_toList]
  refine ⟨.ofList order, ?_, ?_⟩
  · rw [append_encode_written hwritable, hlength]
    rfl
  · rw [htrie] at h ⊢
    exact ⟨get?_ofList_reordered h, size_ofList_reordered h⟩

/-- A listing of two words, one of them twice. -/
def roadListing : Bytes := encode "# roads\nΟΔΟΣ | noun\r\nroad|n|pl\nΟδος|v|\n"

/-- The words are written in lower case, with one line for each. -/
theorem roadListing_written : ∃ t,
    Trie.empty.append (encode "οδος|V|ANY\nroad|N|PL\n") = ⟨t, .ok 2⟩ ∧
      t.get? "ΟΔΟΣ" = some ⟨.verb, .any⟩ ∧ t.size = 2 := by
  have hlist : (Trie.empty.append roadListing).trie.toList =
      [("road", ⟨.noun, .plural⟩), ("οδος", ⟨.verb, .any⟩)] := by
    decide +kernel
  have hsize : (Trie.empty.append roadListing).trie.size = 2 := by
    rw [← Trie.length_toList, hlist]
    rfl
  have hget : (Trie.empty.append roadListing).trie.get? "ΟΔΟΣ" = some ⟨.verb, .any⟩ := by
    decide +kernel
  have horder : [("οδος", ⟨.verb, .any⟩), ("road", ⟨.noun, .plural⟩)].Perm
      (Trie.empty.append roadListing).trie.toList := by
    rw [hlist]
    exact .swap _ _ _
  have hwritten : written [("οδος", ⟨.verb, .any⟩), ("road", ⟨.noun, .plural⟩)] =
      "οδος|V|ANY\nroad|N|PL\n" := by
    decide
  obtain ⟨t, happend, hanswers, hcount⟩ := append_written roadListing _ horder
  rw [hwritten, hsize] at happend
  exact ⟨t, happend, (hanswers "ΟΔΟΣ").trans hget, hcount.trans hsize⟩

end Concord
