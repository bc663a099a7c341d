import Mathlib.Data.List.Permutation
import Concord.Checker
import Concord.Proofs.Token.Joining

/-!
# Checking line by line

A text that is checked line by line is checked in parts: the parts between its line feeds do not
touch each other, a part that is blank is passed over, and every other part is reported once, in
order, without the blanks around it. A carriage return before a line feed is one of these blanks, so
both kinds of line ends come to the same.

The verdict about a line is the verdict about the same text on its own. The blanks around it are no
part of any unit, they shift no unit number, and nothing is lower-cased across them, so it does not
matter whether they are taken off (`analyze_surrounded`).

Main statements: `analyzeLines_eq`, a text is checked by the parts between its line feeds;
`analyzeLines_returned`, carriage returns before line feeds make no difference;
`analyzeLines_linewise`, every part that is not blank is checked on its own.
-/

namespace Concord

open Text

/-! ## Blanks around a text -/

/-- Blanks in front of a text belong to no unit. -/
theorem units_blanks_append {blanks : List Char} (h : ∀ c ∈ blanks, isBlank c = true)
    (cs : List Char) : units (blanks ++ cs) = units cs := by
  induction blanks with
  | nil => rfl
  | cons c blanks ih =>
    obtain ⟨hc, hblanks⟩ := List.forall_mem_cons.1 h
    rw [List.cons_append, units_blank _ hc, ih hblanks]

theorem units_of_blank {blanks : List Char} (h : ∀ c ∈ blanks, isBlank c = true) :
    units blanks = [] := by
  have hunits := units_blanks_append h []
  rw [List.append_nil] at hunits
  exact hunits

/-- Blanks at the end of a text belong to no unit. -/
theorem units_append_blanks (cs : List Char) {blanks : List Char}
    (h : ∀ c ∈ blanks, isBlank c = true) : units (cs ++ blanks) = units cs := by
  cases blanks with
  | nil => rw [List.append_nil]
  | cons c blanks =>
    obtain ⟨hc, hblanks⟩ := List.forall_mem_cons.1 h
    rw [units_append_blank _ _ hc, units_of_blank hblanks, List.append_nil]

/-- Texts with the same units have the same verdict. -/
theorem analyze_of_units_eq {text text' : String} (h : units text.toList = units text'.toList)
    (lexicon : Lexicon) : analyze lexicon text = analyze lexicon text' := by
  have htokens : tokenize lexicon text = tokenize lexicon text' := by rw [tokenize, tokenize, h]
  rw [analyze, analyze, htokens]

/-- White space around a text makes no difference to the verdict. -/
theorem analyze_surrounded {before after : String}
    (hbefore : ∀ c ∈ before.toList, isBlank c = true)
    (hafter : ∀ c ∈ after.toList, isBlank c = true) (lexicon : Lexicon) (text : String) :
    analyze lexicon (before ++ text ++ after) = analyze lexicon text := by
  apply analyze_of_units_eq
  rw [String.toList_append, String.toList_append, units_append_blanks _ hafter,
    units_blanks_append hbefore]

/-- Nor does it matter when it is taken off. -/
theorem analyze_trim (lexicon : Lexicon) (text : String) :
    analyze lexicon (.ofList (trim text.toList)) = analyze lexicon text := by
  obtain ⟨lead, trail, htext, hlead, htrail⟩ := exists_strip isBlank text.toList
  apply analyze_of_units_eq
  rw [String.toList_ofList]
  conv_rhs => rw [htext, units_append_blanks _ htrail, units_blanks_append hlead]
  rfl

/-! ## Lines -/

/-- What is reported of a line: what it is without the blanks around it, unless that is nothing. -/
def lineText? (line : List Char) : Option String :=
  let kept := trim line
  if kept = [] then none else some (.ofList kept)

theorem lineText?_eq_none_iff {line : List Char} :
    lineText? line = none ↔ ∀ c ∈ line, isBlank c = true := by
  simp [lineText?, trim, strip_eq_nil_iff]

theorem lineText?_return (line : List Char) : lineText? (line ++ ['\r']) = lineText? line := by
  rw [lineText?, lineText?, trim_concat_blank _ (by decide)]

namespace Checker

variable (c : Checker)

/-- The lines are kept that have something to report. -/
theorem sentenceLines_eq (text : String) :
    sentenceLines text = (pieces (· == '\n') text.toList).filterMap lineText? := by
  have hkept (ls : List (List Char)) :
      ((ls.map trim).filter (!·.isEmpty)).map String.ofList = ls.filterMap lineText? := by
    induction ls with
    | nil => rfl
    | cons line ls ih =>
      by_cases hblank : trim line = []
      · simp [lineText?, hblank, ← ih]
      · simp [lineText?, hblank, ← ih]
  rw [sentenceLines, hkept, filterMap_lines (by decide) lineText?_return]

/-- What is reported of a line, with the verdict about it. -/
def lineResult? (line : List Char) : Option (String × Verdict) :=
  (lineText? line).map fun text => (text, c.analyze text)

/-- A text is checked by the parts between its line feeds. -/
theorem analyzeLines_eq (text : String) :
    c.analyzeLines text = (pieces (· == '\n') text.toList).filterMap c.lineResult? := by
  rw [analyzeLines, sentenceLines_eq, List.map_filterMap]
  rfl

/-- A line feed between two texts keeps their lines apart. -/
theorem analyzeLines_append (a b : String) :
    c.analyzeLines (a ++ "\n" ++ b) = c.analyzeLines a ++ c.analyzeLines b := by
  have htext : (a ++ "\n" ++ b).toList = a.toList ++ '\n' :: b.toList := by simp
  have hpieces : pieces (· == '\n') (a.toList ++ '\n' :: b.toList) =
      pieces (· == '\n') a.toList ++ pieces (· == '\n') b.toList :=
    pieces_append _ _ _ BEq.rfl
  rw [analyzeLines_eq, analyzeLines_eq, analyzeLines_eq, htext, hpieces, List.filterMap_append]

end Checker

/-! ## Carriage returns -/

/-- The second text is the first with a carriage return before some of the line feeds. -/
inductive Returned : List Char → List Char → Prop
  | nil : Returned [] []
  | same {cs cs' : List Char} (c : Char) : Returned cs cs' → Returned (c :: cs) (c :: cs')
  | returned {cs cs' : List Char} : Returned cs cs' → Returned ('\n' :: cs) ('\r' :: '\n' :: cs')

theorem Returned.refl : ∀ cs : List Char, Returned cs cs
  | [] => .nil
  | c :: cs => .same c (Returned.refl cs)

theorem Returned.append_left {cs cs' : List Char} (h : Returned cs cs') :
    ∀ front : List Char, Returned (front ++ cs) (front ++ cs')
  | [] => h
  | c :: front => .same c (h.append_left front)

/-- The parts between the line feeds are the same but for a carriage return at the end of some. -/
theorem Returned.forall₂_pieces {cs cs' : List Char} (h : Returned cs cs') :
    List.Forall₂ (fun q q' => q' = q ∨ q' = q ++ ['\r']) (pieces (· == '\n') cs)
      (pieces (· == '\n') cs') := by
  induction h with
  | nil => exact .cons (Or.inl rfl) .nil
  | same c _ ih =>
    rw [pieces_cons, pieces_cons]
    split
    · exact .cons (Or.inl rfl) ih
    · -- the character comes in front of the first part on both sides
      revert ih
      generalize pieces (· == '\n') _ = ps
      generalize pieces (· == '\n') _ = ps'
      rintro (_ | ⟨hfirst, hrest⟩)
      · exact .nil
      · refine .cons ?_ hrest
        rcases hfirst with rfl | rfl
        · exact Or.inl rfl
        · exact Or.inr rfl
  | returned _ ih => exact .cons (Or.inr rfl) ih

namespace Checker

variable (c : Checker)

theorem filterMap_lineResult?_returned {ps ps' : List (List Char)}
    (h : List.Forall₂ (fun q q' => q' = q ∨ q' = q ++ ['\r']) ps ps') :
    ps'.filterMap c.lineResult? = ps.filterMap c.lineResult? := by
  induction h with
  | nil => rfl
  | @cons q q' _ _ hfirst _ ih =>
    have hsame : c.lineResult? q' = c.lineResult? q := by
      rcases hfirst with rfl | rfl
      · rfl
      · rw [lineResult?, lineResult?, lineText?_return]
    rw [List.filterMap_cons, List.filterMap_cons, hsame, ih]

/-- Carriage returns before line feeds make no difference. -/
theorem analyzeLines_returned {a b : String} (h : Returned a.toList b.toList) :
    c.analyzeLines b = c.analyzeLines a := by
  rw [analyzeLines_eq, analyzeLines_eq, c.filterMap_lineResult?_returned h.forall₂_pieces]

/-- What is reported is not empty, has no blanks around it, and has the verdict of the same text
with any blanks around it. -/
theorem of_mem_analyzeLines {text line : String} {v : Verdict}
    (h : (line, v) ∈ c.analyzeLines text) :
    line ≠ "" ∧ trim line.toList = line.toList ∧
      ∀ before after : String, (∀ ch ∈ before.toList, isBlank ch = true) →
        (∀ ch ∈ after.toList, isBlank ch = true) → v = c.analyze (before ++ line ++ after) := by
  rw [analyzeLines_eq, List.mem_filterMap] at h
  obtain ⟨part, -, hpart⟩ := h
  simp only [lineResult?, lineText?, Option.map_eq_some_iff, Prod.mk.injEq] at hpart
  obtain ⟨kept, hkept, rfl, rfl⟩ := hpart
  split at hkept
  · simp at hkept
  · next hne =>
    obtain rfl := Option.some.inj hkept
    refine ⟨?_, ?_, ?_⟩
    · intro hempty
      exact hne (String.ofList_injective hempty)
    · rw [String.toList_ofList]
      exact strip_strip isBlank part
    · intro before after hbefore hafter
      exact (analyze_surrounded hbefore hafter c.lexicon _).symm

/-- What is reported is one line. -/
theorem feed_not_mem_of_mem_analyzeLines {text line : String} {v : Verdict}
    (h : (line, v) ∈ c.analyzeLines text) : '\n' ∉ line.toList := by
  rw [analyzeLines_eq, List.mem_filterMap] at h
  obtain ⟨part, hpart, hresult⟩ := h
  simp only [lineResult?, lineText?, Option.map_eq_some_iff, Prod.mk.injEq] at hresult
  obtain ⟨kept, hkept, rfl, -⟩ := hresult
  split at hkept
  · simp at hkept
  · obtain rfl := Option.some.inj hkept
    rw [String.toList_ofList]
    intro hmem
    simpa using not_break_of_mem_pieces hpart '\n' (mem_of_mem_strip hmem)

/-- The parts of a text between line feeds that are not blank are reported one by one. -/
theorem analyzeLines_intercalate {parts : List String} (h : ∀ part ∈ parts, '\n' ∉ part.toList) :
    c.analyzeLines ("\n".intercalate parts) =
      (parts.filter fun part => part.toList.any (!isBlank ·)).map fun part =>
        (.ofList (trim part.toList), c.analyze part) := by
  have hreported : (parts.map String.toList).filterMap c.lineResult? =
      (parts.filter fun part => part.toList.any (!isBlank ·)).map fun part =>
        (.ofList (trim part.toList), c.analyze part) := by
    clear h
    induction parts with
    | nil => rfl
    | cons part parts ih =>
      by_cases hblank : ∀ ch ∈ part.toList, isBlank ch = true
      · have hnone : c.lineResult? part.toList = none := by
          simp [lineResult?, lineText?_eq_none_iff.2 hblank]
        rw [List.map_cons, List.filterMap_cons_none hnone, ih, List.filter_cons_of_neg]
        simpa using hblank
      · have hsome : c.lineResult? part.toList =
            some (.ofList (trim part.toList), c.analyze part) := by
          have hne : trim part.toList ≠ [] := mt strip_eq_nil_iff.1 hblank
          simp [lineResult?, lineText?, hne, analyze, analyze_trim]
        rw [List.map_cons, List.filterMap_cons_some hsome, ih, List.filter_cons_of_pos,
          List.map_cons]
        simpa using hblank
  by_cases hnil : parts = []
  · subst hnil
    rfl
  · have hparts : pieces (· == '\n') ("\n".intercalate parts).toList =
        parts.map String.toList := by
      rw [String.toList_intercalate]
      exact pieces_intercalate (by simpa using hnil) (List.forall_mem_map.2 h)
    rw [analyzeLines_eq, hparts, hreported]

/-- Texts with a line feed between them are checked one after the other, and carriage returns before
line feeds make no difference. Every result is that of a text without blanks around it, which has
the same verdict with any white space around it. The parts of a text between line feeds that are not
blank have one result each, in order. -/
theorem analyzeLines_linewise :
    (∀ a b : String, c.analyzeLines (a ++ "\n" ++ b) = c.analyzeLines a ++ c.analyzeLines b) ∧
    (∀ a b : String, Returned a.toList b.toList → c.analyzeLines b = c.analyzeLines a) ∧
    (∀ (text line : String) (v : Verdict), (line, v) ∈ c.analyzeLines text →
      line ≠ "" ∧ trim line.toList = line.toList ∧
        ∀ before after : String, (∀ ch ∈ before.toList, isBlank ch = true) →
          (∀ ch ∈ after.toList, isBlank ch = true) → v = c.analyze (before ++ line ++ after)) ∧
    ∀ parts : List String, (∀ part ∈ parts, '\n' ∉ part.toList) →
      c.analyzeLines ("\n".intercalate parts) =
        (parts.filter fun part => part.toList.any (!isBlank ·)).map fun part =>
          (.ofList (trim part.toList), c.analyze part) :=
  ⟨c.analyzeLines_append, fun _ _ => c.analyzeLines_returned, fun _ _ _ => c.of_mem_analyzeLines,
    fun _ => c.analyzeLines_intercalate⟩

end Checker

/-- A trie of two words. -/
def dogsRun : Trie := .ofList [("dogs", ⟨.noun, .plural⟩), ("run", ⟨.verb, .plural⟩)]

theorem tokenize_dogsRun : tokenize dogsRun.lexicon "Dogs run." =
    .ok [⟨"dogs", .noun, .plural, 1⟩, ⟨"run", .verb, .plural, 2⟩] := by
  decide +kernel

theorem analyze_dogsRun : (Checker.mk dogsRun).analyze "Dogs run." = .accepted := by
  rw [Checker.analyze, Checker.lexicon, analyze, tokenize_dogsRun]
  cbv

/-- A text of four parts, two of which are blank, with either line end. -/
theorem dogsRun_linewise :
    (Checker.mk dogsRun).analyzeLines "\t\nDogs run. \n\n dogs" =
      [("Dogs run.", .accepted), ("dogs", .rejected [.unexpectedEnd .verb 2])] ∧
    (Checker.mk dogsRun).analyzeLines "\t\nDogs run. \r\n\n dogs" =
      [("Dogs run.", .accepted), ("dogs", .rejected [.unexpectedEnd .verb 2])] ∧
    (Checker.mk dogsRun).analyzeLines ("Dogs" ++ "\n" ++ "run.") =
      (Checker.mk dogsRun).analyzeLines "Dogs" ++ (Checker.mk dogsRun).analyzeLines "run." ∧
    (Checker.mk dogsRun).analyze ("\u00a0\u2003" ++ "Dogs run." ++ "\u00a0\u2003") = .accepted := by
  obtain ⟨happend, hreturns, hmember, hparts⟩ :=
    Checker.analyzeLines_linewise (Checker.mk dogsRun)
  have hdogsRun : (Checker.mk dogsRun).analyze "Dogs run. " = .accepted := by
    have htrim : String.ofList (trim "Dogs run. ".toList) = "Dogs run." := by decide
    rw [Checker.analyze, ← analyze_trim, htrim]
    exact analyze_dogsRun
  have hdogs : (Checker.mk dogsRun).analyze " dogs" = .rejected [.unexpectedEnd .verb 2] := by
    have htokens : tokenize dogsRun.lexicon " dogs" = .ok [⟨"dogs", .noun, .plural, 1⟩] := by
      decide +kernel
    rw [Checker.analyze, Checker.lexicon, analyze, htokens]
    cbv
  have hfour : (Checker.mk dogsRun).analyzeLines "\t\nDogs run. \n\n dogs" =
      [("Dogs run.", .accepted), ("dogs", .rejected [.unexpectedEnd .verb 2])] := by
    refine (hparts ["\t", "Dogs run. ", "", " dogs"] (by decide)).trans ?_
    have hfilter : (["\t", "Dogs run. ", "", " dogs"].filter
        fun part => part.toList.any (!isBlank ·)) = ["Dogs run. ", " dogs"] := by decide
    rw [hfilter, List.map_cons, List.map_cons, List.map_nil, hdogsRun, hdogs]
    rfl
  refine ⟨hfour, ?_, happend _ _, ?_⟩
  · have hreturned : Returned ("\t\nDogs run. ".toList ++ '\n' :: "\n dogs".toList)
        ("\t\nDogs run. ".toList ++ '\r' :: '\n' :: "\n dogs".toList) :=
      (Returned.refl _).returned.append_left _
    exact (hreturns "\t\nDogs run. \n\n dogs" "\t\nDogs run. \r\n\n dogs" hreturned).trans
      hfour
  · obtain ⟨-, -, hsame⟩ := hmember "\t\nDogs run. \n\n dogs" "Dogs run." .accepted
      (by rw [hfour]; exact List.mem_cons_self)
    have hblank : ∀ ch ∈ "\u00a0\u2003".toList, isBlank ch = true :=
      List.all_eq_true.1 (by decide)
    exact (hsame "\u00a0\u2003" "\u00a0\u2003" hblank hblank).symm

end Concord
