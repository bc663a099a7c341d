import Mathlib.Data.List.Basic
import Concord.Proofs.Lexicon.Listing
import Concord.Proofs.Text.Encoding

/-!
# The layout of a lexicon file

A lexicon file can be loaded part by part, if it is cut between lines: the second part is loaded
into what the first leaves, the entries are counted together, and only the line numbers of the
errors of the second part move on.

What a line says does not depend on a carriage return at its end, because it is a blank, nor does
anything depend on a line that says nothing. So a file is loaded as if it were cut at line feeds
alone, and line ends of both kinds, a line feed at the end, and blank and comment lines make no
difference but to the line numbers.

Main statements: `append_eq_parts`, a file is loaded by the parts between its line feeds;
`appendLines_append_of_ok`, loading goes on with what follows; `appendLines_interposed`, lines that
say nothing move the line number of an error on; `append_concat_and_layout`.
-/

namespace Concord

open Text Listing

/-! ## Line numbers and counts -/

/-- An error with another number for its line. -/
def LoadError.renumber (f : Nat → Nat) : LoadError → LoadError
  | cannotOpen path cause => cannotOpen path cause
  | badLine number fault => badLine (f number) fault

namespace Loading

/-- What loading leaves, with another number for the line of the error. -/
def renumber (f : Nat → Nat) (l : Loading) : Loading :=
  { l with outcome := l.outcome.mapError (LoadError.renumber f) }

/-- What loading leaves, with some entries more. -/
def addCount (count : Nat) (l : Loading) : Loading :=
  { l with outcome := l.outcome.map (· + count) }

theorem renumber_renumber (f g : Nat → Nat) (l : Loading) :
    (l.renumber f).renumber g = l.renumber fun number => g (f number) := by
  cases l with
  | mk trie outcome =>
    cases outcome with
    | ok count => rfl
    | error e => cases e <;> rfl

theorem renumber_addCount (f : Nat → Nat) (count : Nat) (l : Loading) :
    (l.addCount count).renumber f = (l.renumber f).addCount count := by
  cases l with
  | mk trie outcome => cases outcome <;> rfl

theorem renumber_of_eq_self {f : Nat → Nat} (h : ∀ number, f number = number) (l : Loading) :
    l.renumber f = l := by
  cases l with
  | mk trie outcome =>
    cases outcome with
    | ok count => rfl
    | error e => cases e <;> simp [renumber, Except.mapError, LoadError.renumber, h]

end Loading

section Lines

variable {lines : List (Except ReadFailure String)}

/-- Lines numbered from further on have errors with these numbers. -/
theorem appendLines_add (t : Trie) (number k : Nat) (lines : List (Except ReadFailure String)) :
    t.appendLines (number + k) lines = (t.appendLines number lines).renumber (· + k) := by
  rcases lists_or_exists_fault lines with
    ⟨entries, hlists⟩ | ⟨right, bad, rest, entries, fault, rfl, hlists, hbad⟩
  · rw [appendLines_of_lists hlists, appendLines_of_lists hlists]
    rfl
  · rw [appendLines_of_fault hlists hbad, appendLines_of_fault hlists hbad, Nat.add_right_comm]
    rfl

/-- Lines that fail fail before whatever follows them. -/
theorem appendLines_append_of_error {t : Trie} {number : Nat} {e : LoadError}
    (h : (t.appendLines number lines).outcome = .error e)
    (rest : List (Except ReadFailure String)) :
    t.appendLines number (lines ++ rest) = t.appendLines number lines := by
  rcases lists_or_exists_fault lines with
    ⟨entries, hlists⟩ | ⟨right, bad, later, entries, fault, rfl, hlists, hbad⟩
  · rw [appendLines_of_lists hlists] at h
    exact nomatch h
  · rw [List.append_assoc, List.cons_append, appendLines_of_fault hlists hbad,
      appendLines_of_fault hlists hbad]

/-- After lines that do not fail, loading goes on with what follows. -/
theorem appendLines_append_of_ok {t : Trie} {number count : Nat}
    (h : (t.appendLines number lines).outcome = .ok count)
    (rest : List (Except ReadFailure String)) :
    t.appendLines number (lines ++ rest) =
      ((t.appendLines number lines).trie.appendLines (number + lines.length) rest).addCount
        count := by
  rcases lists_or_exists_fault lines with
    ⟨entries, hlists⟩ | ⟨right, bad, later, entries, fault, rfl, hlists, hbad⟩
  · rw [appendLines_of_lists hlists] at h ⊢
    obtain rfl : entries.length = count := Except.ok.inj h
    exact appendLines_append hlists
  · rw [appendLines_of_fault hlists hbad] at h
    exact nomatch h

/-! ## Lines that say nothing -/

theorem lists_of_skipped {gap : List (Except ReadFailure String)}
    (h : ∀ line ∈ gap, Says line (.ok none)) : Lists gap [] := by
  induction gap with
  | nil => exact .nil
  | cons line gap ih =>
    obtain ⟨hline, hgap⟩ := List.forall_mem_cons.1 h
    exact .skip hline (ih hgap)

theorem appendLines_skipped {gap : List (Except ReadFailure String)}
    (h : ∀ line ∈ gap, Says line (.ok none)) (t : Trie) (number : Nat) :
    t.appendLines number gap = ⟨t, .ok 0⟩ :=
  appendLines_of_lists (lists_of_skipped h)

/-- Lines in front that say nothing move the numbers on. -/
theorem appendLines_skipped_append {gap : List (Except ReadFailure String)}
    (h : ∀ line ∈ gap, Says line (.ok none)) (t : Trie) (number : Nat)
    (rest : List (Except ReadFailure String)) :
    t.appendLines number (gap ++ rest) =
      (t.appendLines number rest).renumber (· + gap.length) := by
  have hskipped := appendLines_skipped h t number
  rw [appendLines_append_of_ok (by rw [hskipped]), hskipped, ← appendLines_add]
  cases hrest : t.appendLines (number + gap.length) rest with
  | mk trie outcome => cases outcome <;> simp [Loading.addCount, Except.map]

/-- Lines at the end that say nothing make no difference. -/
theorem appendLines_append_skipped {gap : List (Except ReadFailure String)}
    (h : ∀ line ∈ gap, Says line (.ok none)) (t : Trie) (number : Nat) :
    t.appendLines number (lines ++ gap) = t.appendLines number lines := by
  cases hlines : t.appendLines number lines with
  | mk trie outcome =>
    cases outcome with
    | error e => rw [appendLines_append_of_error (by rw [hlines]), hlines]
    | ok count =>
      rw [appendLines_append_of_ok (by rw [hlines]), hlines, appendLines_skipped h]
      simp [Loading.addCount, Except.map]

/-- Lines with others put in: before each line, and after the last, as many as stand in its gap. -/
def interposed {α : Type} : List (List α) → List α → List α
  | [], lines => lines
  | gap :: gaps, [] => gap ++ interposed gaps []
  | gap :: gaps, line :: lines => gap ++ line :: interposed gaps lines

/-- The number of lines that are put in before the line of the given number. -/
def interposedBefore {α : Type} (gaps : List (List α)) (number : Nat) : Nat :=
  (gaps.take number).flatten.length

/-- Lines that say nothing only move the line number of an error on. -/
theorem appendLines_interposed {gaps : List (List (Except ReadFailure String))}
    (h : ∀ gap ∈ gaps, ∀ line ∈ gap, Says line (.ok none)) (t : Trie)
    (lines : List (Except ReadFailure String)) :
    t.appendLines 1 (interposed gaps lines) =
      (t.appendLines 1 lines).renumber fun number => number + interposedBefore gaps number := by
  induction gaps generalizing t lines with
  | nil => rw [interposed, Loading.renumber_of_eq_self (by simp [interposedBefore])]
  | cons gap gaps ih =>
    obtain ⟨hgap, hgaps⟩ := List.forall_mem_cons.1 h
    have hbefore (number : Nat) : interposedBefore (gap :: gaps) (number + 1) =
        gap.length + interposedBefore gaps number := by
      simp [interposedBefore]
    cases lines with
    | nil =>
      rw [interposed, appendLines_skipped_append hgap, ih hgaps]
      rfl
    | cons line lines =>
      rw [interposed, appendLines_skipped_append hgap, appendLines_cons, appendLines_cons]
      -- The line has number 1; those after it are numbered from 1 again and moved on.
      have hlater (t : Trie) :
          (t.appendLines (1 + 1) (interposed gaps lines)).renumber (· + gap.length) =
            (t.appendLines (1 + 1) lines).renumber fun number =>
              number + interposedBefore (gap :: gaps) number := by
        rw [appendLines_add, appendLines_add, ih hgaps]
        simp only [Loading.renumber_renumber, hbefore]
        congr 1
        funext number
        omega
      match interpret line with
      | .error fault =>
        have hfirst : interposedBefore (gap :: gaps) 1 = gap.length := by
          simp [interposedBefore]
        simp only [Loading.renumber, Except.mapError, LoadError.renumber, hfirst]
      | .ok none => exact hlater t
      | .ok (some x) =>
        change (((t.insert x.1 x.2).appendLines (1 + 1) _).addCount 1).renumber _ =
          (((t.insert x.1 x.2).appendLines (1 + 1) _).addCount 1).renumber _
        rw [Loading.renumber_addCount, Loading.renumber_addCount, hlater]

end Lines

/-! ## Line ends -/

/-- Lines that say the same are loaded alike. -/
theorem appendLines_congr {lines lines' : List (Except ReadFailure String)}
    (h : lines.map interpret = lines'.map interpret) (t : Trie) (number : Nat) :
    t.appendLines number lines = t.appendLines number lines' := by
  induction lines generalizing lines' t number with
  | nil => rw [List.map_eq_nil_iff.1 h.symm]
  | cons line lines ih =>
    obtain ⟨line', rest', rfl, hline, hrest⟩ := List.map_eq_cons_iff.1 h.symm
    rw [appendLines_cons, appendLines_cons, hline]
    match interpret line with
    | .error fault => rfl
    | .ok none => exact ih hrest.symm t (number + 1)
    | .ok (some x) => simp only [ih hrest.symm]

/-- A carriage return at its end does not change what a line says. -/
theorem interpret_spell_return (line : Bytes) :
    interpret (FileNode.spell (line ++ [13])) = interpret (FileNode.spell line) := by
  have hreturn : String.utf8EncodeChar '\r' = [13] := by decide
  unfold FileNode.spell
  rw [decode?_concat (by decide) hreturn]
  cases decode? line with
  | none => rfl
  | some s =>
    have htrim : trim (s.push '\r').toList = trim s.toList := by
      rw [String.toList_push, trim_concat_blank _ (by decide)]
    simp only [Option.map_some, interpret, readLine, htrim]

theorem interpret_spell_dropReturn (line : Bytes) :
    interpret (FileNode.spell (dropReturn 13 line)) = interpret (FileNode.spell line) := by
  by_cases h : line.getLast? = some 13
  · obtain ⟨front, rfl⟩ := List.getLast?_eq_some_iff.1 h
    rw [dropReturn_concat, interpret_spell_return]
  · rw [dropReturn_of_ne h]

/-- What stands between the line feeds of a content. -/
def parts (content : Bytes) : List Bytes := pieces (· == 10) content

theorem parts_append (c c' : Bytes) : parts (c ++ 10 :: c') = parts c ++ parts c' :=
  pieces_append _ c c' BEq.rfl

theorem spell_encode (s : String) : FileNode.spell (encode s) = .ok s := by
  rw [FileNode.spell, decode?_encode]

/-- Nothing says nothing. -/
theorem says_empty : Says (FileNode.spell []) (.ok none) := by
  have hspell : FileNode.spell [] = .ok "" := spell_encode ""
  rw [hspell]
  exact .blank rfl

/-- A content is loaded by the parts between its line feeds. -/
theorem append_eq_parts (t : Trie) (content : Bytes) :
    t.append content = t.appendLines 1 ((parts content).map FileNode.spell) := by
  obtain ⟨front, last, hparts⟩ : ∃ front last, parts content = front ++ [last] :=
    ⟨_, _, (List.dropLast_concat_getLast (pieces_ne_nil _ content)).symm⟩
  have hlines : Text.lines 10 13 content =
      front.map (dropReturn 13) ++ [last].filter (!·.isEmpty) := by
    rw [Text.lines, ← parts, hparts]
    simp
  have hfront : (front.map (dropReturn 13)).map (interpret ∘ FileNode.spell) =
      front.map (interpret ∘ FileNode.spell) := by
    rw [List.map_map]
    exact List.map_congr_left fun line _ => interpret_spell_dropReturn line
  rw [Trie.append, FileNode.linesOf, hlines, hparts]
  by_cases hlast : last = []
  · subst hlast
    have hskip : (front ++ [[]]).map FileNode.spell =
        front.map FileNode.spell ++ [FileNode.spell []] := List.map_append
    rw [hskip, appendLines_append_skipped (List.forall_mem_singleton.2 says_empty)]
    refine appendLines_congr ?_ t 1
    simpa using hfront
  · refine appendLines_congr ?_ t 1
    simpa [hlast] using hfront

/-- An empty part at the end makes no difference. -/
theorem append_eq_of_parts {content : Bytes} {front : List Bytes}
    (h : parts content = front ++ [[]]) (t : Trie) :
    t.append content = t.appendLines 1 (front.map FileNode.spell) := by
  rw [append_eq_parts, h, List.map_append, List.map_singleton,
    appendLines_append_skipped (List.forall_mem_singleton.2 says_empty)]

/-- A content with a carriage return before every line feed. -/
def withReturns (content : Bytes) : Bytes :=
  content.flatMap fun b => if b = 10 then [13, 10] else [b]

theorem withReturns_of_not_mem {line : Bytes} (h : 10 ∉ line) : withReturns line = line := by
  induction line with
  | nil => rfl
  | cons b line ih =>
    obtain ⟨hb, hline⟩ := not_or.1 (mt List.mem_cons.2 h)
    rw [withReturns, List.flatMap_cons, if_neg (Ne.symm hb), ← withReturns, ih hline]
    rfl

theorem withReturns_feed {line : Bytes} (h : 10 ∉ line) (rest : Bytes) :
    withReturns (line ++ 10 :: rest) = line ++ [13] ++ 10 :: withReturns rest := by
  have hline := withReturns_of_not_mem h
  unfold withReturns at hline ⊢
  rw [List.flatMap_append, List.flatMap_cons, hline]
  simp

/-- The parts of a content with carriage returns say what its own parts say. -/
theorem interpret_parts_withReturns (content : Bytes) :
    (parts (withReturns content)).map (interpret ∘ FileNode.spell) =
      (parts content).map (interpret ∘ FileNode.spell) := by
  induction hlen : content.length using Nat.strongRecOn generalizing content with
  | ind k ih =>
    rcases not_break_or_exists_first (· == (10 : UInt8)) content with
      hnone | ⟨line, b, rest, rfl, hline, hb⟩
    · rw [withReturns_of_not_mem fun h => by simpa using hnone 10 h]
    · obtain rfl : b = 10 := by simpa using hb
      have hmem : 10 ∉ line := fun h => by simpa using hline 10 h
      have hreturn : ∀ a ∈ line ++ [13], (a == (10 : UInt8)) = false := by
        intro a ha
        rcases List.mem_append.1 ha with ha | ha
        · exact hline a ha
        · rw [List.mem_singleton.1 ha]
          rfl
      have hrest := ih rest.length (by simp at hlen; omega) rest rfl
      rw [withReturns_feed hmem, parts, parts, pieces_first hreturn _ hb, pieces_first hline _ hb,
        List.map_cons, List.map_cons, ← parts, ← parts, hrest, Function.comp_apply,
        interpret_spell_return]
      rfl

theorem append_withReturns (t : Trie) (content : Bytes) :
    t.append (withReturns content) = t.append content := by
  rw [append_eq_parts, append_eq_parts]
  refine appendLines_congr ?_ t 1
  simpa using interpret_parts_withReturns content

/-- A line feed at the end makes no difference. -/
theorem append_feed (t : Trie) (content : Bytes) :
    t.append (content ++ [10]) = t.append content := by
  rw [append_eq_of_parts (parts_append content []), ← append_eq_parts]

/-! ## Parts of a file -/

/-- A content that is empty or ends a line. -/
def EndsLine (content : Bytes) : Prop := content = [] ∨ content.getLast? = some 10

/-- A content that ends a line has its lines between its line feeds, and an empty part after
them. -/
theorem EndsLine.parts_eq {content : Bytes} (h : EndsLine content) (rest : Bytes) :
    ∃ front, parts content = front ++ [[]] ∧ parts (content ++ rest) = front ++ parts rest ∧
      (Text.lines 10 13 content).length = front.length := by
  rcases h with rfl | h
  · exact ⟨[], rfl, rfl, rfl⟩
  · obtain ⟨front, rfl⟩ := List.getLast?_eq_some_iff.1 h
    have hparts : parts (front ++ [10]) = parts front ++ [[]] := parts_append front []
    refine ⟨parts front, hparts, ?_, ?_⟩
    · rw [List.append_assoc, List.singleton_append, parts_append]
    · rw [Text.lines, ← parts, hparts]
      simp

/-- The second part of a file that is cut between lines is loaded into what the first leaves, unless
this fails. -/
theorem append_concat (t : Trie) {c : Bytes} (h : EndsLine c) (c' : Bytes) :
    (∀ e, (t.append c).outcome = .error e → t.append (c ++ c') = t.append c) ∧
    ∀ count, (t.append c).outcome = .ok count →
      t.append (c ++ c') = (((t.append c).trie.append c').addCount count).renumber
        (· + (Text.lines 10 13 c).length) := by
  obtain ⟨front, hparts, hconcat, hlength⟩ := h.parts_eq c'
  have hboth : t.append (c ++ c') =
      t.appendLines 1 (front.map FileNode.spell ++ (parts c').map FileNode.spell) := by
    rw [append_eq_parts, hconcat, List.map_append]
  rw [append_eq_of_parts hparts, hboth, hlength]
  refine ⟨fun e he => appendLines_append_of_error he _, fun count hcount => ?_⟩
  rw [appendLines_append_of_ok hcount, appendLines_add, Loading.renumber_addCount,
    append_eq_parts, List.length_map]

/-- A content with other lines put in between its own. -/
def withLines (gaps : List (List Bytes)) (content : Bytes) : Bytes :=
  [10].intercalate (interposed gaps (parts content))

theorem parts_intercalate {ps : List Bytes} (hne : ps ≠ []) (h : ∀ line ∈ ps, 10 ∉ line) :
    parts ([10].intercalate ps) = ps :=
  pieces_intercalate hne h

theorem map_interposed {α β : Type} (f : α → β) (gaps : List (List α)) (lines : List α) :
    (interposed gaps lines).map f = interposed (gaps.map (·.map f)) (lines.map f) := by
  induction gaps generalizing lines with
  | nil => rfl
  | cons gap gaps ih => cases lines <;> simp [interposed, ih]

theorem mem_interposed {α : Type} {gaps : List (List α)} {lines : List α} {a : α} :
    a ∈ interposed gaps lines ↔ (∃ gap ∈ gaps, a ∈ gap) ∨ a ∈ lines := by
  induction gaps generalizing lines with
  | nil => simp [interposed]
  | cons gap gaps ih => cases lines <;> simp [interposed, ih, or_assoc, or_left_comm]

theorem interposedBefore_map {α β : Type} (f : α → β) (gaps : List (List α)) (number : Nat) :
    interposedBefore (gaps.map (·.map f)) number = interposedBefore gaps number := by
  simp [interposedBefore, List.length_flatten, Function.comp_def]

/-- Blank and comment lines that are put in only move the line number of an error on. -/
theorem append_withLines {gaps : List (List Bytes)}
    (h : ∀ gap ∈ gaps, ∀ line ∈ gap, 10 ∉ line ∧ Says (FileNode.spell line) (.ok none)) (t : Trie)
    (content : Bytes) :
    t.append (withLines gaps content) =
      (t.append content).renumber fun number => number + interposedBefore gaps number := by
  have hne : interposed gaps (parts content) ≠ [] := by
    obtain ⟨line, rest, hline⟩ := List.exists_cons_of_ne_nil (pieces_ne_nil _ content)
    exact List.ne_nil_of_mem (mem_interposed.2 (Or.inr (List.mem_of_mem_head? (by
      rw [parts, hline]; rfl))))
  have hfeed : ∀ line ∈ interposed gaps (parts content), 10 ∉ line := by
    intro line hline
    rcases mem_interposed.1 hline with ⟨gap, hgap, hmem⟩ | hmem
    · exact (h gap hgap line hmem).1
    · intro hfeed
      exact absurd (not_break_of_mem_pieces hmem 10 hfeed) (by decide)
  have hgaps : ∀ gap ∈ gaps.map (·.map FileNode.spell), ∀ line ∈ gap, Says line (.ok none) := by
    intro gap hgap line hline
    obtain ⟨gap', hgap', rfl⟩ := List.mem_map.1 hgap
    obtain ⟨line', hline', rfl⟩ := List.mem_map.1 hline
    exact (h gap' hgap' line' hline').2
  rw [append_eq_parts, append_eq_parts, withLines, parts_intercalate hne hfeed, map_interposed,
    appendLines_interposed hgaps]
  simp only [interposedBefore_map]

/-- A file that is cut between lines is loaded part by part: an error of the first part ends it, and
otherwise the second is loaded into what the first leaves, with the entries counted together and the
lines numbered on. Carriage returns before the line feeds, and a line feed at the end, make no
difference. Blank and comment lines that are put in only move the line number of an error on, by as
many lines as are put in before its line. -/
theorem append_concat_and_layout (t : Trie) :
    (∀ c c' : Bytes, EndsLine c →
      (∀ e, (t.append c).outcome = .error e → t.append (c ++ c') = t.append c) ∧
      ∀ count, (t.append c).outcome = .ok count →
        t.append (c ++ c') = (((t.append c).trie.append c').addCount count).renumber
          (· + (Text.lines 10 13 c).length)) ∧
    (∀ c : Bytes, t.append (withReturns c) = t.append c) ∧
    (∀ c : Bytes, t.append (c ++ [10]) = t.append c) ∧
    ∀ (gaps : List (List Bytes)) (c : Bytes),
      (∀ gap ∈ gaps, ∀ line ∈ gap, 10 ∉ line ∧ Says (FileNode.spell line) (.ok none)) →
      t.append (withLines gaps c) =
        (t.append c).renumber fun number => number + interposedBefore gaps number :=
  ⟨fun _ c' h => append_concat t h c', append_withReturns t, append_feed t,
    fun _ c h => append_withLines h t c⟩

/-- A listing of a noun. -/
def dogListing : Bytes := encode "dog|N\n"

/-- A listing of a word that is given no category. -/
def birdListing : Bytes := encode "bird|ADV\n"

/-- The second of two lines has the fault, and nothing follows where the fault comes first. With a
comment and a blank line before it, the fault is that of the third line. -/
theorem birdListing_layout :
    Trie.empty.append (dogListing ++ birdListing) =
      ⟨Trie.empty.insert "dog" ⟨.noun, .any⟩,
        .error (.badLine 2 (.unknownCategory "ADV"))⟩ ∧
    Trie.empty.append (birdListing ++ dogListing) =
      ⟨.empty, .error (.badLine 1 (.unknownCategory "ADV"))⟩ ∧
    Trie.empty.append (withLines [[encode "# birds", encode " \r"]] birdListing) =
      ⟨.empty, .error (.badLine 3 (.unknownCategory "ADV"))⟩ := by
  have hdogLines : FileNode.linesOf dogListing = [.ok "dog|N"] := by decide +kernel
  have hbirdLines : FileNode.linesOf birdListing = [.ok "bird|ADV"] := by decide +kernel
  have hdog : Trie.empty.append dogListing = ⟨Trie.empty.insert "dog" ⟨.noun, .any⟩, .ok 1⟩ := by
    have hlists : Lists [.ok "dog|N"] [("dog", ⟨.noun, .any⟩)] :=
      .entry (says_iff.2 (by decide +kernel)) .nil
    rw [Trie.append, hdogLines, appendLines_of_lists hlists]
    rfl
  have hbird (t : Trie) :
      t.append birdListing = ⟨t, .error (.badLine 1 (.unknownCategory "ADV"))⟩ := by
    have hbad : interpret (.ok "bird|ADV") = .error (.unknownCategory "ADV") := by decide +kernel
    rw [Trie.append, hbirdLines, appendLines_cons, hbad]
  have hends {s : String} (h : (encode s).getLast? = some 10) : EndsLine (encode s) := Or.inr h
  have hgaps : ∀ gap ∈ [[encode "# birds", encode " \r"]], ∀ line ∈ gap,
      10 ∉ line ∧ Says (FileNode.spell line) (.ok none) := by
    simp only [List.forall_mem_singleton, List.forall_mem_cons]
    exact ⟨⟨by decide, says_iff.2 (by decide +kernel)⟩, by decide, says_iff.2 (by decide +kernel)⟩
  refine ⟨?_, ?_, ?_⟩
  · rw [dogListing, birdListing, ((append_concat_and_layout .empty).1 _ _ (hends (by decide))).2 1
      (by rw [← dogListing, hdog]), ← dogListing, ← birdListing, hdog, hbird]
    rfl
  · rw [← hbird .empty]
    exact ((append_concat_and_layout .empty).1 _ _ (hends (by decide))).1 _
      (by rw [← birdListing, hbird])
  · rw [(append_concat_and_layout .empty).2.2.2 _ _ hgaps, hbird]
    rfl

end Concord
