import Concord.Proofs.Text.Casing

/-!
# Scanning in one pass

A text is cut into tokens in several passes: commas are isolated, the whole text is lower-cased,
then it is cut at blanks, and the stops come off last. One pass over the text as it is gives the
same: the units are read off (`rawUnits`), each loses its stops and is lower-cased on its own
(`scan`).

Main statements: `units_eq`, the units are those of one pass, lower-cased; `tokenize_eq_scan`, so
the tokens, or the first unknown word, are those of the scan.
-/

namespace Concord

open Text

/-! ## One pass -/

/-- Whether a character can be part of a longer unit. -/
def isInner (c : Char) : Bool := c != ',' && !isBlank c

/-- The units of a text as it stands: every comma, and every maximal run of other characters that
are not blank. -/
def rawUnits : List Char → List (List Char)
  | [] => []
  | c :: cs =>
    if c = ',' then [','] :: rawUnits cs
    else if isBlank c then rawUnits cs
    else (c :: cs.takeWhile isInner) :: rawUnits (cs.dropWhile isInner)
termination_by cs => cs.length
decreasing_by
  · exact Nat.lt_succ_self _
  · exact Nat.lt_succ_self _
  · exact Nat.lt_succ_of_le (List.dropWhile_suffix isInner).length_le

/-- The word of a unit, with the number of the unit. A unit of nothing but stops gives no word. -/
def unitWord? (unit : List Char × Nat) : Option (String × Nat) :=
  let stripped := strip isStop unit.1
  if stripped = [] then none else some (.ofList (lowercase stripped), unit.2)

/-- The words of a text, each with the number of its unit, counted from 1. -/
def scan (text : List Char) : List (String × Nat) :=
  ((rawUnits text).zipIdx 1).filterMap unitWord?

/-- The token of a word with the number of its unit, if the lexicon knows it. -/
def scanToken? (lexicon : Lexicon) (word : String × Nat) : Option Token :=
  if word.1 = "," then some ⟨",", .comma, .any, word.2⟩
  else (lexicon word.1).map fun entry => ⟨word.1, entry.category, entry.number, word.2⟩

/-- The tokens of some words, or the first word that the lexicon does not know. -/
def lookUpAll (lexicon : Lexicon) (ws : List (String × Nat)) : Except LexicalError (List Token) :=
  match ws.find? fun word => (scanToken? lexicon word).isNone with
  | some (word, number) => .error (.unknownWord word number)
  | none => .ok (ws.filterMap (scanToken? lexicon))

/-! ## Units -/

theorem ne_comma_of_isBlank {c : Char} (hc : isBlank c = true) : c ≠ ',' := by
  intro h
  rw [h] at hc
  revert hc
  decide

theorem isInner_iff {c : Char} : isInner c = true ↔ c ≠ ',' ∧ isBlank c = false := by
  simp [isInner]

theorem rawUnits_comma (cs : List Char) : rawUnits (',' :: cs) = [','] :: rawUnits cs := by
  rw [rawUnits, if_pos rfl]

theorem rawUnits_blank (cs : List Char) {c : Char} (hc : isBlank c = true) :
    rawUnits (c :: cs) = rawUnits cs := by
  rw [rawUnits, if_neg (ne_comma_of_isBlank hc), if_pos hc]

theorem rawUnits_inner (cs : List Char) {c : Char} (hc : isInner c = true) :
    rawUnits (c :: cs) = (c :: cs.takeWhile isInner) :: rawUnits (cs.dropWhile isInner) := by
  obtain ⟨hne, hblank⟩ := isInner_iff.1 hc
  rw [rawUnits, if_neg hne, if_neg (by simp [hblank])]

theorem isolateCommas_comma (cs : List Char) :
    isolateCommas (',' :: cs) = ' ' :: ',' :: ' ' :: isolateCommas cs := rfl

theorem isolateCommas_cons (cs : List Char) {c : Char} (hc : c ≠ ',') :
    isolateCommas (c :: cs) = c :: isolateCommas cs := by
  unfold isolateCommas
  rw [List.flatMap_cons, if_neg hc]
  rfl

theorem isolateCommas_append_of_ne {run : List Char} (h : ∀ c ∈ run, c ≠ ',')
    (rest : List Char) : isolateCommas (run ++ rest) = run ++ isolateCommas rest := by
  induction run with
  | nil => rfl
  | cons c run ih =>
    obtain ⟨hc, hrun⟩ := List.forall_mem_cons.1 h
    rw [List.cons_append, isolateCommas_cons _ hc, ih hrun]
    rfl

theorem lowercase_comma : lowercase [','] = [','] := parting_comma.lowercaseAfter false []

theorem units_comma (cs : List Char) : units (',' :: cs) = [','] :: units cs := by
  have hspace : isBlank ' ' = true := by decide
  have hcomma : words [','] = [[',']] :=
    words_of_not_blank (by simp) (List.forall_mem_singleton.2 (by decide))
  have hisolate : isolateCommas (',' :: cs) = ' ' :: ([','] ++ ' ' :: isolateCommas cs) :=
    isolateCommas_comma cs
  unfold units
  rw [hisolate, lowercase_cons_blank _ hspace, lowercase_append_blank _ _ hspace,
    lowercase_comma, words_cons_blank _ hspace, words_append _ _ hspace, hcomma]
  rfl

theorem units_blank (cs : List Char) {c : Char} (hc : isBlank c = true) :
    units (c :: cs) = units cs := by
  unfold units
  rw [isolateCommas_cons cs (ne_comma_of_isBlank hc), lowercase_cons_blank _ hc,
    words_cons_blank _ hc]

/-- Where a character that is not inner comes first, a blank comes first once commas are isolated.
-/
theorem exists_blank_isolateCommas (cs : List Char) {c : Char} (hc : isInner c = false) :
    ∃ b vs, isBlank b = true ∧ isolateCommas (c :: cs) = b :: vs := by
  by_cases hcomma : c = ','
  · subst hcomma
    exact ⟨' ', _, by decide, isolateCommas_comma cs⟩
  · have hblank : isBlank c = true := by simpa [isInner, hcomma] using hc
    exact ⟨c, _, hblank, isolateCommas_cons cs hcomma⟩

/-- A run of inner characters is a unit up to a comma, a blank or the end. -/
theorem units_inner {run rest : List Char} (hne : run ≠ []) (hrun : ∀ c ∈ run, isInner c = true)
    (hrest : ∀ c, rest.head? = some c → isInner c = false) :
    units (run ++ rest) = lowercase run :: units rest := by
  have hblank : ∀ c ∈ run, isBlank c = false := fun c hc => (isInner_iff.1 (hrun c hc)).2
  have hnil : lowercase run ≠ [] := fun h => hne (lowercaseAfter_eq_nil.1 h)
  have hword : words (lowercase run) = [lowercase run] :=
    words_of_not_blank hnil (not_blank_lowercase hblank)
  unfold units
  rw [isolateCommas_append_of_ne fun c hc => (isInner_iff.1 (hrun c hc)).1]
  cases rest with
  | nil =>
    rw [isolateCommas, List.flatMap_nil, List.append_nil, hword]
    rfl
  | cons c cs =>
    obtain ⟨b, vs, hb, hvs⟩ := exists_blank_isolateCommas cs (hrest c rfl)
    rw [hvs, lowercase_append_blank _ _ hb, lowercase_cons_blank _ hb, words_append _ _ hb,
      words_cons_blank _ hb, hword]
    rfl

/-- Cutting the text that is lower-cased as a whole gives the units of one pass, each lower-cased.
-/
theorem units_eq (text : List Char) : units text = (rawUnits text).map lowercase := by
  induction text using rawUnits.induct with
  | case1 =>
    rw [rawUnits]
    rfl
  | case2 cs ih =>
    rw [units_comma, rawUnits_comma, List.map_cons, lowercase_comma, ih]
  | case3 c cs _ hblank ih => rw [units_blank cs hblank, rawUnits_blank cs hblank, ih]
  | case4 c cs hne hblank ih =>
    have hc : isInner c = true := isInner_iff.2 ⟨hne, by simpa using hblank⟩
    have hrun : ∀ d ∈ c :: cs.takeWhile isInner, isInner d = true :=
      List.forall_mem_cons.2 ⟨hc, all_of_mem_takeWhile⟩
    have htext : c :: cs = c :: cs.takeWhile isInner ++ cs.dropWhile isInner := by
      rw [List.cons_append, List.takeWhile_append_dropWhile]
    have hrest : ∀ d, (cs.dropWhile isInner).head? = some d → isInner d = false :=
      fun d hd => head?_dropWhile hd
    rw [rawUnits_inner cs hc, List.map_cons, ← ih, ← units_inner (by simp) hrun hrest, ← htext]

/-- Every unit takes a character of the text at least. -/
theorem length_rawUnits_le (text : List Char) : (rawUnits text).length ≤ text.length := by
  induction text using rawUnits.induct with
  | case1 =>
    rw [rawUnits]
    exact Nat.le_refl 0
  | case2 cs ih =>
    rw [rawUnits_comma]
    exact Nat.succ_le_succ ih
  | case3 c cs _ hblank ih =>
    rw [rawUnits_blank cs hblank]
    exact Nat.le_succ_of_le ih
  | case4 c cs hne hblank ih =>
    have hle : (cs.dropWhile isInner).length ≤ cs.length := (List.dropWhile_suffix _).length_le
    rw [rawUnits_inner cs (isInner_iff.2 ⟨hne, by simpa using hblank⟩)]
    exact Nat.succ_le_succ (Nat.le_trans ih hle)

/-! ## Words -/

/-- A word that is known has the token of the scan. -/
theorem classify_of_some {lexicon : Lexicon} {word : String} {number : Nat} {token : Token}
    (h : scanToken? lexicon (word, number) = some token) :
    classify lexicon word number = .ok token := by
  unfold scanToken? at h
  unfold classify
  by_cases hcomma : word = ","
  · rw [if_pos hcomma] at h ⊢
    rw [Option.some.inj h]
  · rw [if_neg hcomma] at h ⊢
    cases hentry : lexicon word with
    | none => simp [hentry] at h
    | some entry => simpa [hentry] using h

theorem classify_of_none {lexicon : Lexicon} {word : String} {number : Nat}
    (h : scanToken? lexicon (word, number) = none) :
    classify lexicon word number = .error (.unknownWord word number) := by
  unfold scanToken? at h
  unfold classify
  by_cases hcomma : word = ","
  · simp [hcomma] at h
  · rw [if_neg hcomma] at h ⊢
    rw [Option.map_eq_none_iff.1 h]

theorem lookUpAll_cons_of_none {lexicon : Lexicon} {word : String} {number : Nat}
    (ws : List (String × Nat)) (h : scanToken? lexicon (word, number) = none) :
    lookUpAll lexicon ((word, number) :: ws) = .error (.unknownWord word number) := by
  simp [lookUpAll, h]

theorem lookUpAll_cons_of_some {lexicon : Lexicon} {word : String} {number : Nat} {token : Token}
    (ws : List (String × Nat)) (h : scanToken? lexicon (word, number) = some token) :
    lookUpAll lexicon ((word, number) :: ws) = (lookUpAll lexicon ws).map (token :: ·) := by
  unfold lookUpAll
  simp only [List.find?_cons, h, Option.isNone_some, List.filterMap_cons]
  cases ws.find? fun word => (scanToken? lexicon word).isNone <;> rfl

/-- Taking the stops off a unit in lower case gives the word of the unit. -/
theorem classifyUnits_eq (lexicon : Lexicon) (raw : List (List Char)) (position : Nat) :
    classifyUnits lexicon position (raw.map lowercase) =
      lookUpAll lexicon ((raw.zipIdx position).filterMap unitWord?) := by
  induction raw generalizing position with
  | nil => rfl
  | cons unit raw ih =>
    rw [List.map_cons, classifyUnits, strip_lowercase, List.zipIdx_cons, List.filterMap_cons]
    by_cases hempty : strip isStop unit = []
    · have hword : unitWord? (unit, position) = none := if_pos hempty
      rw [hempty, hword]
      exact ih (position + 1)
    · have hword : unitWord? (unit, position) =
          some (.ofList (lowercase (strip isStop unit)), position) := if_neg hempty
      have hnil : lowercase (strip isStop unit) ≠ [] := fun h => hempty (lowercaseAfter_eq_nil.1 h)
      obtain ⟨c, cs, hcs⟩ := List.exists_cons_of_ne_nil hnil
      rw [hword, hcs]
      cases htoken : scanToken? lexicon (.ofList (c :: cs), position) with
      | none => simp only [classify_of_none htoken, lookUpAll_cons_of_none _ htoken]
      | some token => simp only [classify_of_some htoken, lookUpAll_cons_of_some _ htoken, ih]

/-- Cutting a text into tokens comes to one scan of it. -/
theorem tokenize_eq_lookUpAll (lexicon : Lexicon) (text : String) :
    tokenize lexicon text = lookUpAll lexicon (scan text.toList) := by
  rw [tokenize, units_eq, classifyUnits_eq, scan]

-- The capital sigma before a stop is final, and the unit of stops counts although it gives no word.
example : scan "The ΟΔΟΣ!, ... ends.".toList =
    [("the", 1), ("οδος", 2), (",", 3), ("ends", 5)] := by
  cbv

/-- One pass over the text as it stands gives its tokens if every word is known, and otherwise the
first unknown word with the number of its unit. -/
theorem tokenize_eq_scan (lexicon : Lexicon) (text : String) :
    tokenize lexicon text =
      match (scan text.toList).find? fun word => (scanToken? lexicon word).isNone with
      | some (word, number) => .error (.unknownWord word number)
      | none => .ok ((scan text.toList).filterMap (scanToken? lexicon)) :=
  tokenize_eq_lookUpAll lexicon text

end Concord
