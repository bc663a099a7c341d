import Concord.Session
import Concord.Proofs.Verdict.Messages

/-!
# Rows

A row of the output is known by its beginning. The row of a token begins with at least five
characters of the column of positions, which are spaces and digits (`isMargin`); every other row
begins with one of the six marks, which have another character among the first five and none of
which is the beginning of another. What is left of a row after its mark is as it was given, and the
row of a token is cut at its blanks into the four values of the token, however long they are.

No row holds a line feed unless what is given after its mark does.

Main statements: `words_row`, the columns of the row of a token; `Row.Legible.read?_text`, a row is
read back by its beginning; `Written.readRows_eq`, an output is read as the rows it consists of.
-/

namespace Concord

open Text

/-! ## Columns -/

theorem Solid.words_eq {s : String} (h : Solid s) (hne : s ≠ "") : words s.toList = [s.toList] :=
  words_of_not_blank (by simpa using hne) h

/-- A padded text stands between filling characters. -/
theorem exists_pad (fill : Char) (align : Text.Alignment) (width : Nat) (s : String) :
    ∃ before after, (pad fill align width s).toList =
        List.replicate before fill ++ s.toList ++ List.replicate after fill ∧
      width ≤ before + s.length + after := by
  refine ⟨_, _, String.toList_ofList, ?_⟩
  cases align with
  | left => simp only; omega
  | right => simp only; omega
  | center => simp only; omega

theorem forall_mem_pad {P : Char → Prop} {fill : Char} {s : String} (hfill : P fill)
    (h : ∀ c ∈ s.toList, P c) (align : Text.Alignment) (width : Nat) :
    ∀ c ∈ (pad fill align width s).toList, P c := by
  obtain ⟨before, after, hpad, -⟩ := exists_pad fill align width s
  have hfilling (n : Nat) : ∀ c ∈ List.replicate n fill, P c := by
    intro c hc
    rw [List.eq_of_mem_replicate hc]
    exact hfill
  rw [hpad]
  exact List.forall_mem_append.2
    ⟨List.forall_mem_append.2 ⟨hfilling before, h⟩, hfilling after⟩

/-- A padded text is one word if it was one. -/
theorem words_pad {s : String} (h : Solid s) (hne : s ≠ "") (align : Text.Alignment) (width : Nat) :
    words (pad ' ' align width s).toList = [s.toList] := by
  obtain ⟨before, after, hpad, -⟩ := exists_pad ' ' align width s
  have hblanks (n : Nat) : ∀ c ∈ List.replicate n ' ', isBlank c = true := by
    intro c hc
    rw [List.eq_of_mem_replicate hc]
    decide
  rw [hpad, words_append_blanks _ (hblanks after), words_blanks_append (hblanks before),
    h.words_eq hne]

/-- The row of a token is cut at its blanks into the values of the token. -/
theorem words_row {t : Token} (h : Solid t.word) (hne : t.word ≠ "") :
    words t.row.toList = [(toString t.position).toList, t.word.toList, t.category.code.toList,
      t.number.code.toList] := by
  have hdigits : Solid (toString t.position) := solid_repr t.position
  have hposition : toString t.position ≠ "" := Nat.repr_ne_empty
  have hcategory : t.category.code ≠ "" := by cases t.category <;> decide
  have hnumber : t.number.code ≠ "" := by cases t.number <;> decide
  have hrow : t.row.toList = ' ' :: ' ' :: ((pad ' ' .right 3 (toString t.position)).toList ++
      ' ' :: ' ' :: ((pad ' ' .left 12 t.word).toList ++
        ' ' :: ((pad ' ' .left 5 t.category.code).toList ++ ' ' :: t.number.code.toList))) := by
    simp [Token.row, positionColumn, wordColumn, categoryColumn]
  rw [hrow, words_cons_blank _ (by decide), words_cons_blank _ (by decide),
    words_append _ _ (by decide), words_cons_blank _ (by decide), words_append _ _ (by decide),
    words_append _ _ (by decide), words_pad hdigits hposition, words_pad h hne,
    words_pad t.category.solid_code hcategory, t.number.solid_code.words_eq hnumber]
  rfl

/-! ## Marks -/

/-- What a row begins with that is not the row of a token. -/
inductive Mark where
  /-- A line that is accepted. -/
  | ok
  /-- A line that is not accepted. -/
  | error
  /-- An error of a line. -/
  | arrow
  /-- A message about a text that is accepted. -/
  | tick
  /-- A text that is not accepted. -/
  | cross
  /-- A message about a text that is not accepted. -/
  | detail
  deriving DecidableEq

/-- The text of a mark. -/
def Mark.text : Mark → String
  | ok => "[OK] "
  | error => "[ERROR] "
  | arrow => "   -> "
  | tick => "✔ "
  | cross => "✘ Invalid sentence."
  | detail => "  Detail: "

/-- Every mark. -/
def Mark.all : List Mark := [ok, error, arrow, tick, cross, detail]

/-- A row of the output. -/
inductive Row where
  | token (token : Token)
  | marked (mark : Mark) (rest : String)
  deriving DecidableEq

/-- The text of a row. -/
def Row.text : Row → String
  | token t => t.row
  | marked mark rest => mark.text ++ rest

/-- Whether a character can stand in the column of positions. -/
def isMargin (c : Char) : Bool := c == ' ' || c.isDigit

/-- The token of a row of four columns. -/
def Token.read? (row : String) : Option Token :=
  match words row.toList with
  | [position, word, category, number] => do
    let category ← Category.ofCode? (.ofList category)
    let number ← Number.ofCode? (.ofList number)
    some ⟨.ofList word, category, number, Nat.ofDigitChars 10 position 0⟩
  | _ => none

/-- The mark with which a row begins. -/
def Mark.read? (row : String) : Option Mark :=
  all.find? fun mark => mark.text.toList.isPrefixOf row.toList

/-- Reads a row by its beginning. -/
def Row.read? (row : String) : Option Row :=
  if (row.toList.take 5).all isMargin then (Token.read? row).map .token
  else (Mark.read? row).map fun mark =>
    .marked mark (.ofList (row.toList.drop mark.text.toList.length))

/-- No mark is the beginning of another. -/
theorem Mark.eq_of_begins {mark mark' : Mark} (h : mark.text.toList <+: mark'.text.toList) :
    mark = mark' := by
  cases mark <;> cases mark' <;> first | rfl | exact absurd h (by decide)

theorem Mark.read?_append (mark : Mark) (rest : String) :
    Mark.read? (mark.text ++ rest) = some mark := by
  have hprefix : mark.text.toList <+: (mark.text ++ rest).toList := by
    rw [String.toList_append]
    exact List.prefix_append _ _
  cases h : Mark.read? (mark.text ++ rest) with
  | none =>
    have hall : mark ∈ all := by cases mark <;> decide
    exact absurd (List.isPrefixOf_iff_prefix.2 hprefix) (List.find?_eq_none.1 h mark hall)
  | some mark' =>
    -- Of two marks with which the same row begins, one is the beginning of the other.
    have hfound := List.find?_some h
    have hprefix' := List.isPrefixOf_iff_prefix.1 hfound
    rcases List.prefix_or_prefix_of_prefix hprefix' hprefix with h' | h'
    · rw [eq_of_begins h']
    · rw [eq_of_begins h']

/-- A mark has a character among the first five that cannot stand in the column of positions. -/
theorem Mark.all_isMargin_append (mark : Mark) (rest : String) :
    ((mark.text ++ rest).toList.take 5).all isMargin = false := by
  rw [String.toList_append]
  cases mark <;> rfl

theorem isMargin_of_mem_repr {n : Nat} : ∀ c ∈ n.repr.toList, isMargin c = true := by
  intro c hc
  rw [Nat.repr_eq_ofList_toDigits, String.toList_ofList] at hc
  have hdigit : c.isDigit = true := Nat.isDigit_of_mem_toDigits (by decide) (by decide) hc
  simp [isMargin, hdigit]

/-- The row of a token begins in the column of positions. -/
theorem Token.all_isMargin_row (t : Token) : (t.row.toList.take 5).all isMargin = true := by
  obtain ⟨column, rest, hrow, hmargin, hlength⟩ : ∃ column rest, t.row.toList = column ++ rest ∧
      (∀ c ∈ column, isMargin c = true) ∧ 5 ≤ column.length := by
    refine ⟨' ' :: ' ' :: (pad ' ' .right 3 (toString t.position)).toList,
      ("  " ++ pad ' ' .left 12 t.word ++ " " ++ pad ' ' .left 5 t.category.code ++ " " ++
        t.number.code).toList, ?_, ?_, ?_⟩
    · simp [Token.row, positionColumn, wordColumn, categoryColumn]
    · have hposition : ∀ c ∈ (pad ' ' .right 3 (toString t.position)).toList, isMargin c = true :=
        forall_mem_pad (P := (isMargin · = true)) rfl isMargin_of_mem_repr .right 3
      exact List.forall_mem_cons.2 ⟨rfl, List.forall_mem_cons.2 ⟨rfl, hposition⟩⟩
    · obtain ⟨before, after, hpad, hwidth⟩ := exists_pad ' ' .right 3 (toString t.position)
      rw [hpad]
      simp only [List.length_cons, List.length_append, List.length_replicate,
        String.length_toList]
      omega
  rw [hrow, List.take_append_of_le_length hlength, List.all_eq_true]
  intro c hc
  exact hmargin c (List.mem_of_mem_take hc)

theorem Token.read?_row {t : Token} (h : Solid t.word) (hne : t.word ≠ "") :
    Token.read? t.row = some t := by
  have hposition : Nat.ofDigitChars 10 (toString t.position).toList 0 = t.position :=
    ofDigitChars_repr t.position
  simp only [read?, words_row h hne, String.ofList_toList, Category.ofCode?_code,
    Number.ofCode?_code, hposition]
  rfl

/-! ## Lines of rows -/

/-- A text without line feeds. -/
def OneLine (s : String) : Prop := '\n' ∉ s.toList

instance (s : String) : Decidable (OneLine s) := inferInstanceAs (Decidable ('\n' ∉ s.toList))

theorem oneLine_append {s s' : String} : OneLine (s ++ s') ↔ OneLine s ∧ OneLine s' := by
  simp [OneLine, not_or]

theorem Solid.oneLine {s : String} (h : Solid s) : OneLine s := by
  intro hmem
  exact absurd (h _ hmem) (by decide)

theorem oneLine_intercalate {sep : String} {ss : List String} (hsep : OneLine sep)
    (h : ∀ s ∈ ss, OneLine s) : OneLine (sep.intercalate ss) := by
  induction ss with
  | nil => exact List.not_mem_nil
  | cons s ss ih =>
    obtain ⟨hs, hss⟩ := List.forall_mem_cons.1 h
    by_cases hnil : ss = []
    · rwa [hnil, String.intercalate_singleton]
    · rw [String.intercalate_cons_of_ne_nil hnil, oneLine_append, oneLine_append]
      exact ⟨⟨hs, hsep⟩, ih hss⟩

theorem oneLine_pad {s : String} (h : OneLine s) (align : Text.Alignment) (width : Nat) :
    OneLine (pad ' ' align width s) := by
  have hnot : ∀ c ∈ s.toList, c ≠ '\n' := fun c hc heq => h (heq ▸ hc)
  intro hmem
  exact forall_mem_pad (by decide) hnot align width '\n' hmem rfl

theorem Remark.oneLine_message {r : Remark} (h : ∀ w ∈ r.words, Solid w) : OneLine r.message := by
  rw [r.message_eq]
  exact oneLine_intercalate (by decide) fun f hf => (solid_fields h f hf).oneLine

theorem Token.oneLine_row {t : Token} (h : Solid t.word) : OneLine t.row := by
  have hspace : OneLine " " := by decide
  have hspaces : OneLine "  " := by decide
  have hposition : OneLine (pad ' ' .right 3 (toString t.position)) :=
    oneLine_pad (solid_repr t.position).oneLine _ _
  have hword := oneLine_pad h.oneLine .left 12
  have hcategory := oneLine_pad t.category.solid_code.oneLine .left 5
  simp only [Token.row, positionColumn, wordColumn, categoryColumn, Column.set_uncut,
    oneLine_append, hspace, hspaces, hposition, hword, hcategory, t.number.solid_code.oneLine,
    and_self]

theorem Mark.oneLine_text (mark : Mark) : OneLine mark.text := by cases mark <;> decide

/-- The word of a token, where the row is that of a token, is not empty and holds no blank. What
stands after a mark holds no line feed. -/
def Row.Legible : Row → Prop
  | token t => Solid t.word ∧ t.word ≠ ""
  | marked _ rest => OneLine rest

/-- Every row is read back by its beginning. -/
theorem Row.Legible.read?_text {row : Row} (h : row.Legible) : Row.read? row.text = some row := by
  cases row with
  | token t =>
    rw [text, read?, if_pos t.all_isMargin_row, Token.read?_row h.1 h.2, Option.map_some]
  | marked mark rest =>
    rw [text, read?, mark.all_isMargin_append, if_neg Bool.false_ne_true, mark.read?_append,
      Option.map_some, String.toList_append, List.drop_left, String.ofList_toList]

theorem Row.Legible.oneLine_text {row : Row} (h : row.Legible) : OneLine row.text := by
  cases row with
  | token t => exact Token.oneLine_row h.1
  | marked mark rest => exact oneLine_append.2 ⟨mark.oneLine_text, h⟩

/-- The parts of an output between its line feeds. -/
def outputLines (stdout : String) : List String :=
  (pieces (· == '\n') stdout.toList).map String.ofList

/-- Lines are cut apart at the line feeds, after the last of which nothing follows. -/
theorem outputLines_unlines {lines : List String} (h : ∀ line ∈ lines, OneLine line) :
    outputLines (unlines lines) = lines ++ [""] := by
  have hpieces : pieces (· == '\n') (unlines lines).toList = lines.map String.toList ++ [[]] := by
    rw [unlines, String.toList_ofList, ← pieces_ended (List.forall_mem_map.2 h), List.flatMap_map]
  have hsame : String.ofList ∘ String.toList = id := by
    funext line
    exact String.ofList_toList
  rw [outputLines, hpieces, List.map_append, List.map_map, hsame, List.map_id]
  rfl

/-- The rows of an output. -/
def readRows (stdout : String) : List Row := (outputLines stdout).filterMap Row.read?

/-- An output consists of rows, each with its line feed, and each row is known by its beginning. -/
structure Written (stdout : String) (rows : List Row) : Prop where
  outputLines_eq : outputLines stdout = rows.map Row.text ++ [""]
  read?_text : ∀ row ∈ rows, Row.read? row.text = some row

theorem written_unlines {rows : List Row} (h : ∀ row ∈ rows, row.Legible) :
    Written (unlines (rows.map Row.text)) rows where
  outputLines_eq :=
    outputLines_unlines (List.forall_mem_map.2 fun row hrow => (h row hrow).oneLine_text)
  read?_text row hrow := (h row hrow).read?_text

/-- What consists of rows is read as these rows. -/
theorem Written.readRows_eq {stdout : String} {rows : List Row} (h : Written stdout rows) :
    readRows stdout = rows := by
  obtain ⟨hlines, hread⟩ := h
  have hrows : (rows.map Row.text).filterMap Row.read? = rows := by
    clear hlines
    induction rows with
    | nil => rfl
    | cons row rows ih =>
      obtain ⟨hrow, hrows⟩ := List.forall_mem_cons.1 hread
      rw [List.map_cons, List.filterMap_cons_some hrow, ih hrows]
  have hempty : [""].filterMap Row.read? = [] := rfl
  rw [readRows, hlines, List.filterMap_append, hrows, hempty, List.append_nil]

end Concord
