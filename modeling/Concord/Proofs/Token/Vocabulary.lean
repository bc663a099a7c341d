import Concord.Proofs.Lexicon.Layers
import Concord.Proofs.Token.Reprinting

/-!
# The words that are looked up

A lexicon is asked for the words of a text one by one, until there is one that it does not know.
Neither units of nothing but stops nor commas are looked up, and the tokens of a text depend on a
lexicon only through its answers for the others (`lookedUp`).

Every word that is looked up is in lower case, has no blank, no comma and no stop at its ends. So an
entry whose word is not like this in lower case (`Findable`) is never found, and one whose word is
like this is found wherever the word stands on its own, with any stops around it.

Main statements: `tokenize_congr`, the tokens of a text depend on the answers for the words that are
looked up; `findable_of_mem_vocabulary`, these words are findable; `tokenize_insert`, which entries
a text can find.
-/

namespace Concord

open Text

/-! ## Looking up -/

/-- The word for which a unit needs an entry: what it is without its stops, unless this is nothing
or a comma. -/
def entryWord? (unit : List Char) : Option String :=
  let word := strip isStop unit
  if word = [] ∨ word = [','] then none else some (.ofList word)

/-- The words for which a text needs entries, in order. -/
def vocabulary (text : String) : List String := (units text.toList).filterMap entryWord?

/-- Those of some words that are looked up: all up to the first that the lexicon does not know. -/
def lookedUp (lexicon : Lexicon) : List String → List String
  | [] => []
  | word :: ws => word :: if (lexicon word).isSome then lookedUp lexicon ws else []

theorem lookedUp_subset (lexicon : Lexicon) (ws : List String) : lookedUp lexicon ws ⊆ ws := by
  induction ws with
  | nil => exact List.Subset.refl []
  | cons word ws ih =>
    rw [lookedUp]
    split
    · exact List.cons_subset_cons word ih
    · exact List.cons_subset_cons word (List.nil_subset ws)

section Congr

variable {lexicon lexicon' : Lexicon}

theorem classify_congr {word : String} (h : lexicon' word = lexicon word) (position : Nat) :
    classify lexicon' word position = classify lexicon word position := by
  unfold classify
  rw [h]

/-- A word that has a token is known, unless it is the comma. -/
theorem isSome_of_classify {word : String} {position : Nat} {t : Token} (hne : word ≠ ",")
    (h : classify lexicon word position = .ok t) : (lexicon word).isSome = true := by
  unfold classify at h
  rw [if_neg hne] at h
  cases hentry : lexicon word with
  | none => simp [hentry] at h
  | some e => rfl

theorem classifyUnits_congr {us : List (List Char)} (position : Nat)
    (h : ∀ word ∈ lookedUp lexicon (us.filterMap entryWord?), lexicon' word = lexicon word) :
    classifyUnits lexicon' position us = classifyUnits lexicon position us := by
  induction us generalizing position with
  | nil => rfl
  | cons unit us ih =>
    rw [classifyUnits, classifyUnits]
    cases hword : strip isStop unit with
    | nil =>
      have hnone : entryWord? unit = none := by simp [entryWord?, hword]
      rw [List.filterMap_cons_none hnone] at h
      exact ih (position + 1) h
    | cons c cs =>
      simp only
      by_cases hcomma : c :: cs = [',']
      · have hnone : entryWord? unit = none := by simp [entryWord?, hword, hcomma]
        rw [List.filterMap_cons_none hnone] at h
        have hseparator (lexicon : Lexicon) :
            classify lexicon (.ofList [',']) position = .ok ⟨",", .comma, .any, position⟩ :=
          if_pos rfl
        rw [hcomma, hseparator, hseparator, ih (position + 1) h]
      · have hsome : entryWord? unit = some (.ofList (c :: cs)) := by
          simp [entryWord?, hword, hcomma]
        rw [List.filterMap_cons_some hsome, lookedUp, List.forall_mem_cons] at h
        obtain ⟨hhere, hlater⟩ := h
        rw [classify_congr hhere]
        cases hclassify : classify lexicon (.ofList (c :: cs)) position with
        | error e => rfl
        | ok t =>
          have hne : String.ofList (c :: cs) ≠ "," := fun heq =>
            hcomma (String.ofList_injective heq)
          rw [if_pos (isSome_of_classify hne hclassify)] at hlater
          rw [ih (position + 1) hlater]

/-- The tokens of a text depend on a lexicon only through its answers for the words that are looked
up. -/
theorem tokenize_congr {text : String}
    (h : ∀ word ∈ lookedUp lexicon (vocabulary text), lexicon' word = lexicon word) :
    tokenize lexicon' text = tokenize lexicon text :=
  classifyUnits_congr 1 h

end Congr

/-! ## Words that can be found -/

/-- A key under which a text can find an entry. -/
structure Findable (key : List Char) : Prop where
  ne_nil : key ≠ []
  not_blank : ∀ c ∈ key, isBlank c = false
  no_comma : ',' ∉ key
  trimmed : Trimmed isStop key

/-- What is looked up is findable, and in lower case. -/
theorem findable_of_mem_vocabulary {text word : String} (h : word ∈ vocabulary text) :
    Findable word.toList ∧ lowercase word.toList = word.toList := by
  obtain ⟨unit, hunit, hword⟩ := List.mem_filterMap.1 h
  rw [units_eq] at hunit
  obtain ⟨raw, hraw, rfl⟩ := List.mem_map.1 hunit
  unfold entryWord? at hword
  simp only [strip_lowercase] at hword
  split at hword
  · exact absurd hword (by simp)
  · next hne =>
    obtain ⟨hnil, hcomma⟩ := not_or.1 hne
    rw [← Option.some.inj hword, String.toList_ofList]
    have hcut : WellCut (lowercase (strip isStop raw)) :=
      wellCut_of_mem_rawUnits hraw fun hstrip => hnil (by rw [hstrip]; rfl)
    exact ⟨⟨hcut.ne_nil, hcut.not_blank, fun hmem => hcomma (hcut.comma hmem), hcut.trimmed⟩,
      hcut.lower⟩

theorem isInner_of_isStop {c : Char} (h : isStop c = true) : isInner c = true := by
  have hc : c = '.' ∨ c = '!' ∨ c = '?' := by simpa [isStop, or_assoc] using h
  rcases hc with rfl | rfl | rfl <;> decide

/-- A word that is findable in lower case has neither a blank nor a comma. -/
theorem Findable.inner {cs : List Char} (h : Findable (lowercase cs)) :
    ∀ c ∈ cs, isInner c = true := by
  intro c hc
  refine isInner_iff.2 ⟨?_, ?_⟩
  · rintro rfl
    exact h.no_comma (mem_lowercase_of_isDelimiter hc (by decide))
  · cases hblank : isBlank c with
    | false => rfl
    | true =>
      have hmem := mem_lowercase_of_isDelimiter hc (isDelimiter_of_isBlank hblank)
      exact absurd (h.not_blank c hmem) (by simp [hblank])

/-- A findable word with stops around it is one unit. -/
theorem Findable.units_eq {cs before after : List Char} (h : Findable (lowercase cs))
    (hbefore : ∀ c ∈ before, isStop c = true) (hafter : ∀ c ∈ after, isStop c = true) :
    units (before ++ cs ++ after) = [before ++ lowercase cs ++ after] := by
  have hne : before ++ cs ++ after ≠ [] := by
    intro hnil
    have hcs : cs = [] := by simp_all
    exact h.ne_nil (by rw [hcs, lowercase_nil])
  have hinner : ∀ c ∈ before ++ cs ++ after, isInner c = true := by
    intro c hc
    rw [List.mem_append, List.mem_append] at hc
    rcases hc with (hc | hc) | hc
    · exact isInner_of_isStop (hbefore c hc)
    · exact h.inner c hc
    · exact isInner_of_isStop (hafter c hc)
  have hunits : units (before ++ cs ++ after ++ []) =
      lowercase (before ++ cs ++ after) :: units [] := units_inner hne hinner (by simp)
  rw [List.append_nil, lowercase_append_stops hafter, lowercase_stops_append hbefore] at hunits
  exact hunits

/-- A findable key with stops around it gives the token of its entry. -/
theorem classifyUnits_findable {lexicon : Lexicon} {key before after : List Char} {e : Entry}
    (h : Findable key) (hbefore : ∀ c ∈ before, isStop c = true)
    (hafter : ∀ c ∈ after, isStop c = true) (he : lexicon (.ofList key) = some e)
    (position : Nat) : classifyUnits lexicon position [before ++ key ++ after] =
      .ok [⟨.ofList key, e.category, e.number, position⟩] := by
  have hne : String.ofList key ≠ "," := by
    intro heq
    obtain rfl : key = [','] := String.ofList_injective heq
    exact h.no_comma (List.mem_singleton_self ',')
  have htoken : classify lexicon (.ofList key) position =
      .ok ⟨.ofList key, e.category, e.number, position⟩ := by
    rw [classify, if_neg hne, he]
  obtain ⟨c, cs, hkey⟩ := List.exists_cons_of_ne_nil h.ne_nil
  rw [classifyUnits, strip_append hbefore hafter h.trimmed]
  subst hkey
  simp only [htoken, classifyUnits]
  rfl

/-- If the word of an entry is findable in lower case, it is one token wherever it stands with stops
around it. Otherwise the entry is never found: every text has the tokens, or the unknown word, that
it has without the entry. -/
theorem tokenize_insert (t : Trie) (word : String) (e : Entry) :
    (Findable (lowercase word.toList) → ∀ before after : String,
      (∀ c ∈ before.toList, isStop c = true) → (∀ c ∈ after.toList, isStop c = true) →
      tokenize (t.insert word e).lexicon (before ++ word ++ after) =
        .ok [⟨lowered word, e.category, e.number, 1⟩]) ∧
    (¬ Findable (lowercase word.toList) → ∀ text,
      tokenize (t.insert word e).lexicon text = tokenize t.lexicon text) := by
  constructor
  · intro h before after hbefore hafter
    have hentry : (t.insert word e).lexicon (lowered word) = some e := by
      rw [Trie.lexicon, get?_insert, lowered_lowered, if_pos rfl]
    rw [tokenize, String.toList_append, String.toList_append, h.units_eq hbefore hafter]
    exact classifyUnits_findable h hbefore hafter hentry 1
  · intro h text
    refine tokenize_congr fun other hother => ?_
    obtain ⟨hfindable, hlower⟩ := findable_of_mem_vocabulary (lookedUp_subset _ _ hother)
    have hne : lowered word ≠ lowered other := by
      intro heq
      apply h
      rw [String.ofList_injective heq, hlower]
      exact hfindable
    exact (get?_insert t word e other).trans (if_neg hne)

/-- A street is found between stops although its last letter is lower-cased by its place, and a
title that is written with a stop is not found even as it is written. -/
theorem street_mister_insert :
    tokenize (Trie.empty.insert "ΟΔΟΣ" ⟨.noun, .singularCountable⟩).lexicon "?ΟΔΟΣ.!" =
      .ok [⟨"οδος", .noun, .singularCountable, 1⟩] ∧
    tokenize (Trie.empty.insert "Mr." ⟨.noun, .singularCountable⟩).lexicon "Mr." =
      .error (.unknownWord "mr" 1) := by
  have hlower : lowercase "ΟΔΟΣ".toList = "οδος".toList := by decide +kernel
  have hstreet : Findable (lowercase "ΟΔΟΣ".toList) := by
    rw [hlower]
    have hnot_blank : ∀ c ∈ "οδος".toList, isBlank c = false := by
      simp [isBlank, blankRanges, inRanges]
    exact ⟨by decide, hnot_blank, by decide, by constructor <;> simp [isStop]⟩
  have hmister : ¬ Findable (lowercase "Mr.".toList) := by
    intro h
    have hstop := h.trimmed.2 '.' (by decide +kernel)
    exact absurd hstop (by decide)
  have hfound := (tokenize_insert .empty "ΟΔΟΣ" ⟨.noun, .singularCountable⟩).1 hstreet "?" ".!"
    (by simp [isStop]) (by simp [isStop])
  have hlost := (tokenize_insert .empty "Mr." ⟨.noun, .singularCountable⟩).2 hmister "Mr."
  rw [lowered, hlower] at hfound
  exact ⟨hfound, hlost.trans (by decide +kernel)⟩

end Concord
