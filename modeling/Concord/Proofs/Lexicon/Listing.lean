import Concord.Lexicon.Listing
import Concord.Proofs.Text.Cutting

/-!
# What a lexicon file says

A lexicon file is read line by line. What a line says (`Says`) is stated field by field, without
regard to how it is read: it is passed over, it gives a word with its entry, or it has a fault. Of
several faults the first counts: bytes that are no text, then the number of fields and the word,
then the category, then the number.

Loading enters the words of the lines before the first fault and stops there.

Main statements: `says_iff`, reading a line gives what it says, and a line says exactly one thing;
`appendLines_append`, loading goes on after right lines as if it began there;
`append_enters_before_fault`, what loading the content of a file leaves and reports.
-/

namespace Concord

open Text

/-! ## Codes -/

/-- Where no two values share a name, a code finds the value that has it as a name. -/
theorem Code.find?_eq_some_iff {α : Type} {names : α → List String} {values : List α} {s : String}
    {a : α} (hall : ∀ a, a ∈ values)
    (hdisjoint : ∀ a ∈ values, ∀ b ∈ values, ∀ name ∈ names a, name ∈ names b → a = b) :
    Code.find? names values s = some a ↔ key s ∈ names a := by
  unfold Code.find?
  refine ⟨fun h => by simpa using List.find?_some h, fun h => ?_⟩
  cases hfind : values.find? fun b => (names b).contains (key s) with
  | none =>
    have hnot := List.find?_eq_none.1 hfind a (hall a)
    exact absurd (List.contains_iff_mem.2 h) (by simpa using hnot)
  | some b =>
    have hb : key s ∈ names b := by simpa using List.find?_some hfind
    rw [hdisjoint b (hall b) a (hall a) _ hb h]

theorem Category.ofCode?_eq_some_iff {s : String} {c : Category} :
    Category.ofCode? s = some c ↔ Code.key s ∈ c.aliases :=
  Code.find?_eq_some_iff mem_all (by decide +kernel)

theorem Number.ofCode?_eq_some_iff {s : String} {n : Number} :
    Number.ofCode? s = some n ↔ Code.key s ∈ n.aliases :=
  Code.find?_eq_some_iff mem_all (by decide +kernel)

namespace Listing

/-! ## Lines -/

/-- A field, without the blanks around it and in lower case, is one of some names. -/
def Names (names : List String) (field : List Char) : Prop :=
  .ofList (lowercase (trim field)) ∈ names

/-- The fields of a line: a word, a category, and perhaps a number, with bars between them. -/
inductive Fields : List Char → List Char → List Char → Option (List Char) → Prop
  | two {word category : List Char} : '|' ∉ word → '|' ∉ category →
      Fields (word ++ '|' :: category) word category none
  | three {word category number : List Char} : '|' ∉ word → '|' ∉ category → '|' ∉ number →
      Fields (word ++ '|' :: (category ++ '|' :: number)) word category (some number)

/-- The number that a field gives. No field and a blank one leave the number open. -/
inductive NumberField : Option (List Char) → Number → Prop
  | absent : NumberField none .any
  | blank {field : List Char} : trim field = [] → NumberField (some field) .any
  | named {field : List Char} {n : Number} : Names n.aliases field → NumberField (some field) n

/-- What a line holds besides the blanks around it, if that is neither nothing nor a comment. -/
structure Content (line : String) (content : List Char) : Prop where
  trimmed : trim line.toList = content
  ne_nil : content ≠ []
  not_comment : content.head? ≠ some '#'

/-- What a line says: nothing, an entry, or a fault. -/
inductive Says : Except ReadFailure String → Except LineFault (Option (String × Entry)) → Prop
  | unreadable {cause : ReadFailure} : Says (.error cause) (.error (.unreadable cause))
  | blank {line : String} : trim line.toList = [] → Says (.ok line) (.ok none)
  | comment {line : String} {text : List Char} : trim line.toList = '#' :: text →
      Says (.ok line) (.ok none)
  | entry {line : String} {content word category : List Char} {number : Option (List Char)}
      {c : Category} {n : Number} : Content line content → Fields content word category number →
      trim word ≠ [] → Names c.aliases category → NumberField number n →
      Says (.ok line) (.ok (some (.ofList (trim word), ⟨c, n⟩)))
  | fieldCount {line : String} {content : List Char} : Content line content →
      content.count '|' ≠ 1 → content.count '|' ≠ 2 →
      Says (.ok line) (.error (.malformed (.ofList content)))
  | blankWord {line : String} {content word category : List Char} {number : Option (List Char)} :
      Content line content → Fields content word category number → trim word = [] →
      Says (.ok line) (.error (.malformed (.ofList content)))
  | category {line : String} {content word category : List Char} {number : Option (List Char)} :
      Content line content → Fields content word category number → trim word ≠ [] →
      (∀ c : Category, ¬ Names c.aliases category) →
      Says (.ok line) (.error (.unknownCategory (.ofList (trim category))))
  | number {line : String} {content word category number : List Char} {c : Category} :
      Content line content → Fields content word category (some number) → trim word ≠ [] →
      Names c.aliases category → (∀ n : Number, ¬ NumberField (some number) n) →
      Says (.ok line) (.error (.unknownNumber (.ofList (trim number))))

/-- What is made of a line. -/
def interpret : Except ReadFailure String → Except LineFault (Option (String × Entry))
  | .error cause => .error (.unreadable cause)
  | .ok line => readLine line

/-! ## Reading the fields -/

theorem key_field (field : List Char) :
    Code.key (.ofList (trim field)) = .ofList (lowercase (trim field)) := by
  rw [Code.key, String.toList_ofList, trim, trim, strip_strip]

theorem names_category_iff {c : Category} {field : List Char} :
    Names c.aliases field ↔ Category.ofCode? (.ofList (trim field)) = some c := by
  rw [Category.ofCode?_eq_some_iff, key_field]
  rfl

theorem category_unknown_iff {field : List Char} :
    (∀ c : Category, ¬ Names c.aliases field) ↔
      Category.ofCode? (.ofList (trim field)) = none := by
  rw [Option.eq_none_iff_forall_ne_some]
  exact forall_congr' fun c => not_congr names_category_iff

/-- The text that stands for the number: none counts as the name of any number. -/
def numberText : Option (List Char) → String
  | none => "ANY"
  | some field => .ofList (trim field)

theorem numberField_iff {number : Option (List Char)} {n : Number} :
    NumberField number n ↔ Number.ofCode? (numberText number) = some n := by
  have hany : Number.ofCode? "ANY" = some .any := Number.ofCode?_code .any
  have hblank : Number.ofCode? (.ofList []) = some .any := by decide
  have hnamed {field : List Char} :
      Names n.aliases field ↔ Number.ofCode? (.ofList (trim field)) = some n := by
    rw [Number.ofCode?_eq_some_iff, key_field]
    rfl
  refine ⟨fun h => ?_, fun h => ?_⟩
  · cases h with
    | absent => exact hany
    | blank hfield => rw [numberText, hfield, hblank]
    | named hfield => exact hnamed.1 hfield
  · cases number with
    | none =>
      obtain rfl : Number.any = n := Option.some.inj (hany.symm.trans h)
      exact .absent
    | some field => exact .named (hnamed.2 h)

theorem Fields.read {content word category : List Char} {number : Option (List Char)}
    (h : Fields content word category number) :
    readEntry content = readEntry.entry content (.ofList (trim word)) (.ofList (trim category))
      (numberText number) := by
  unfold readEntry fields
  cases h with
  | two hword hcategory =>
    rw [pieces_first (beq_eq_false_of_not_mem hword) _ BEq.rfl,
      pieces_of_not_break (beq_eq_false_of_not_mem hcategory)]
    rfl
  | three hword hcategory hnumber =>
    rw [pieces_first (beq_eq_false_of_not_mem hword) _ BEq.rfl,
      pieces_first (beq_eq_false_of_not_mem hcategory) _ BEq.rfl,
      pieces_of_not_break (beq_eq_false_of_not_mem hnumber)]
    rfl

/-- A line has two fields, three, or another number of them. -/
theorem fields_or_count (content : List Char) :
    (∃ word category number, Fields content word category number) ∨
      (content.count '|' ≠ 1 ∧ content.count '|' ≠ 2 ∧
        readEntry content = .error (.malformed (.ofList content))) := by
  have hfree {cs : List Char} (h : ∀ c ∈ cs, (c == '|') = false) : '|' ∉ cs :=
    fun hmem => by simpa using h '|' hmem
  have hcount {cs : List Char} (h : ∀ c ∈ cs, (c == '|') = false) : cs.count '|' = 0 :=
    List.count_eq_zero.2 (hfree h)
  rcases not_break_or_exists_first (· == '|') content with h | ⟨word, b, rest, rfl, hword, hb⟩
  · have hread : readEntry content = .error (.malformed (.ofList content)) := by
      unfold readEntry fields
      rw [pieces_of_not_break h]
      rfl
    exact Or.inr ⟨by simp [hcount h], by simp [hcount h], hread⟩
  obtain rfl : b = '|' := by simpa using hb
  rcases not_break_or_exists_first (· == '|') rest with
    h | ⟨category, b, rest', rfl, hcategory, hb'⟩
  · exact Or.inl ⟨word, rest, none, .two (hfree hword) (hfree h)⟩
  obtain rfl : b = '|' := by simpa using hb'
  rcases not_break_or_exists_first (· == '|') rest' with h | ⟨number, b, more, rfl, hnumber, hb''⟩
  · exact Or.inl ⟨word, category, some rest', .three (hfree hword) (hfree hcategory) (hfree h)⟩
  -- A third bar makes four fields or more.
  · obtain rfl : b = '|' := by simpa using hb''
    obtain ⟨last, later, hmore⟩ := List.exists_cons_of_ne_nil (pieces_ne_nil (· == '|') more)
    refine Or.inr ⟨?_, ?_, ?_⟩
    · simp [List.count_append]
      omega
    · simp [List.count_append]
      omega
    · unfold readEntry fields
      rw [pieces_first hword _ hb, pieces_first hcategory _ hb, pieces_first hnumber _ hb, hmore]
      rfl

theorem Content.read {line : String} {content : List Char} (h : Content line content) :
    readLine line = (readEntry content).map some := by
  unfold readLine
  rw [h.trimmed]
  obtain ⟨c, cs, rfl⟩ := List.exists_cons_of_ne_nil h.ne_nil
  split
  · next hnil => simp at hnil
  · next cs' hcomment => exact absurd (congrArg List.head? hcomment) h.not_comment
  · rfl

theorem ofList_eq_empty_iff {cs : List Char} : String.ofList cs = "" ↔ cs = [] := by
  rw [← String.toList_inj, String.toList_ofList]
  rfl

/-- A line says what is made of it. -/
theorem Says.interpret_eq {line : Except ReadFailure String}
    {meaning : Except LineFault (Option (String × Entry))} (h : Says line meaning) :
    interpret line = meaning := by
  have hword {word : List Char} (h : trim word ≠ []) : ¬ String.ofList (trim word) = "" :=
    mt ofList_eq_empty_iff.1 h
  cases h with
  | unreadable => rfl
  | blank hblank => rw [interpret, readLine, hblank]
  | comment hcomment =>
    rw [interpret, readLine, hcomment]
    rfl
  | entry hcontent hfields hne hcategory hnumber =>
    rw [interpret, hcontent.read, hfields.read, readEntry.entry, if_neg (hword hne),
      names_category_iff.1 hcategory, numberField_iff.1 hnumber]
    rfl
  | fieldCount hcontent hone htwo =>
    rename_i content
    rcases fields_or_count content with ⟨word, category, number, hfields⟩ | ⟨-, -, hread⟩
    · cases hfields with
      | two hw hc =>
        simp [List.count_eq_zero.2 hw, List.count_eq_zero.2 hc] at hone
      | three hw hc hn =>
        simp [List.count_eq_zero.2 hw, List.count_eq_zero.2 hc, List.count_eq_zero.2 hn] at htwo
    · rw [interpret, hcontent.read, hread]
      rfl
  | blankWord hcontent hfields hnil =>
    rw [interpret, hcontent.read, hfields.read, readEntry.entry,
      if_pos (ofList_eq_empty_iff.2 hnil)]
    rfl
  | category hcontent hfields hne hunknown =>
    rw [interpret, hcontent.read, hfields.read, readEntry.entry, if_neg (hword hne),
      category_unknown_iff.1 hunknown]
    rfl
  | number hcontent hfields hne hcategory hunknown =>
    rename_i field _
    have hnone : Number.ofCode? (numberText (some field)) = none :=
      Option.eq_none_iff_forall_ne_some.2 fun n hn => hunknown n (numberField_iff.2 hn)
    rw [interpret, hcontent.read, hfields.read, readEntry.entry, if_neg (hword hne),
      names_category_iff.1 hcategory, hnone]
    rfl

/-- Every line with contents says something. -/
theorem Content.exists_says {line : String} {content : List Char} (h : Content line content) :
    ∃ meaning, Says (.ok line) meaning := by
  rcases fields_or_count content with ⟨word, category, number, hfields⟩ | ⟨hone, htwo, -⟩
  · by_cases hword : trim word = []
    · exact ⟨_, .blankWord h hfields hword⟩
    by_cases hcategory : ∃ c : Category, Names c.aliases category
    · obtain ⟨c, hc⟩ := hcategory
      by_cases hnumber : ∃ n, NumberField number n
      · obtain ⟨n, hn⟩ := hnumber
        exact ⟨_, .entry h hfields hword hc hn⟩
      · cases number with
        | none => exact absurd ⟨.any, .absent⟩ hnumber
        | some field => exact ⟨_, .number h hfields hword hc (not_exists.1 hnumber)⟩
    · exact ⟨_, .category h hfields hword (not_exists.1 hcategory)⟩
  · exact ⟨_, .fieldCount h hone htwo⟩

theorem exists_says (line : Except ReadFailure String) : ∃ meaning, Says line meaning := by
  cases line with
  | error cause => exact ⟨_, .unreadable⟩
  | ok line =>
    cases hcontent : trim line.toList with
    | nil => exact ⟨_, .blank hcontent⟩
    | cons c cs =>
      by_cases hc : c = '#'
      · exact ⟨_, .comment (hc ▸ hcontent)⟩
      · exact Content.exists_says ⟨hcontent, by simp, by simpa using hc⟩

/-- A line says exactly one thing, what is made of it. -/
theorem says_iff {line : Except ReadFailure String}
    {meaning : Except LineFault (Option (String × Entry))} :
    Says line meaning ↔ interpret line = meaning := by
  refine ⟨Says.interpret_eq, fun h => ?_⟩
  obtain ⟨meaning', hsays⟩ := exists_says line
  have hsame : meaning' = meaning := hsays.interpret_eq.symm.trans h
  exact hsame ▸ hsays

/-! ## Right lines -/

/-- Some lines have no fault, and give these entries in order. -/
inductive Lists : List (Except ReadFailure String) → List (String × Entry) → Prop
  | nil : Lists [] []
  | skip {line : Except ReadFailure String} {lines : List (Except ReadFailure String)}
      {entries : List (String × Entry)} : Says line (.ok none) → Lists lines entries →
      Lists (line :: lines) entries
  | entry {line : Except ReadFailure String} {lines : List (Except ReadFailure String)}
      {x : String × Entry} {entries : List (String × Entry)} : Says line (.ok (some x)) →
      Lists lines entries → Lists (line :: lines) (x :: entries)

/-- Lines are all right, or there is a first one with a fault. -/
theorem lists_or_exists_fault (lines : List (Except ReadFailure String)) :
    (∃ entries, Lists lines entries) ∨
      ∃ right bad rest entries fault, lines = right ++ bad :: rest ∧ Lists right entries ∧
        Says bad (.error fault) := by
  induction lines with
  | nil => exact Or.inl ⟨[], .nil⟩
  | cons line lines ih =>
    obtain ⟨meaning, hsays⟩ := exists_says line
    match meaning, hsays with
    | .error fault, hsays => exact Or.inr ⟨[], line, lines, [], fault, rfl, .nil, hsays⟩
    | .ok none, hsays =>
      rcases ih with ⟨entries, hlists⟩ | ⟨right, bad, rest, entries, fault, rfl, hlists, hbad⟩
      · exact Or.inl ⟨entries, .skip hsays hlists⟩
      · exact Or.inr ⟨line :: right, bad, rest, entries, fault, rfl, .skip hsays hlists, hbad⟩
    | .ok (some x), hsays =>
      rcases ih with ⟨entries, hlists⟩ | ⟨right, bad, rest, entries, fault, rfl, hlists, hbad⟩
      · exact Or.inl ⟨x :: entries, .entry hsays hlists⟩
      · exact Or.inr ⟨line :: right, bad, rest, x :: entries, fault, rfl, .entry hsays hlists, hbad⟩

end Listing

/-! ## Loading -/

open Listing

variable {t : Trie} {number : Nat} {lines right rest : List (Except ReadFailure String)}
  {bad : Except ReadFailure String} {entries : List (String × Entry)} {fault : LineFault}

/-- Loading goes by what the first line says. -/
theorem appendLines_cons (t : Trie) (number : Nat) (line : Except ReadFailure String)
    (rest : List (Except ReadFailure String)) :
    t.appendLines number (line :: rest) =
      match interpret line with
      | .error fault => ⟨t, .error (.badLine number fault)⟩
      | .ok none => t.appendLines (number + 1) rest
      | .ok (some x) =>
        let loading := (t.insert x.1 x.2).appendLines (number + 1) rest
        { loading with outcome := loading.outcome.map (· + 1) } := by
  cases line with
  | error cause => rfl
  | ok line =>
    rw [interpret, Trie.appendLines]
    match Listing.readLine line with
    | .error fault => rfl
    | .ok none => rfl
    | .ok (some x) => rfl

/-- Loading stops at a line with a fault. -/
theorem appendLines_bad (h : Says bad (.error fault)) :
    t.appendLines number (bad :: rest) = ⟨t, .error (.badLine number fault)⟩ := by
  rw [appendLines_cons, h.interpret_eq]

/-- After right lines, loading goes on with their words entered, counting their entries in. -/
theorem appendLines_append (h : Lists right entries) :
    t.appendLines number (right ++ rest) =
      let loading := (t.insertAll entries).appendLines (number + right.length) rest
      { loading with outcome := loading.outcome.map (· + entries.length) } := by
  induction h generalizing t number with
  | nil =>
    cases hrest : t.appendLines number rest with
    | mk trie outcome => cases outcome <;> simp [Trie.insertAll, hrest, Except.map]
  | skip hline _ ih =>
    rw [List.cons_append, appendLines_cons, hline.interpret_eq]
    simp only
    rw [ih, List.length_cons, Nat.add_assoc, Nat.add_comm 1]
  | @entry line lines x entries hline _ ih =>
    rw [List.cons_append, appendLines_cons, hline.interpret_eq]
    simp only
    rw [ih, List.length_cons, List.length_cons, Nat.add_assoc, Nat.add_comm 1]
    have hentries : t.insertAll (x :: entries) = (t.insert x.1 x.2).insertAll entries := rfl
    rw [hentries]
    cases ((t.insert x.1 x.2).insertAll entries).appendLines (number + (lines.length + 1)) rest with
    | mk trie outcome => cases outcome <;> rfl

/-- Right lines are entered and counted. -/
theorem appendLines_of_lists (h : Lists lines entries) :
    t.appendLines number lines = ⟨t.insertAll entries, .ok entries.length⟩ := by
  have hload := @appendLines_append t number lines [] entries h
  rw [List.append_nil, Trie.appendLines] at hload
  rw [hload]
  simp [Except.map]

/-- The lines before the first fault are entered, and the fault is reported with its line. -/
theorem appendLines_of_fault (h : Lists right entries) (hbad : Says bad (.error fault)) :
    t.appendLines number (right ++ bad :: rest) =
      ⟨t.insertAll entries, .error (.badLine (number + right.length) fault)⟩ := by
  rw [appendLines_append h, appendLines_bad hbad]
  rfl

/-- The entries of the lines before the first fault. -/
def Listing.entered (lines : List (Except ReadFailure String)) : List (String × Entry) :=
  ((lines.map interpret).takeWhile Except.isOk).filterMap fun meaning => meaning.toOption.join

/-- Entries are what lines say. -/
theorem exists_says_of_mem_entered {x : String × Entry} (h : x ∈ entered lines) :
    ∃ line ∈ lines, Says line (.ok (some x)) := by
  obtain ⟨meaning, hmem, hx⟩ := List.mem_filterMap.1 h
  obtain ⟨line, hline, rfl⟩ := List.mem_map.1 (List.takeWhile_subset _ hmem)
  refine ⟨line, hline, says_iff.2 ?_⟩
  cases hmeaning : interpret line with
  | error fault => simp [hmeaning, Except.toOption] at hx
  | ok entry? =>
    rw [hmeaning] at hx
    exact congrArg Except.ok hx

/-- What comes after right lines gives its entries after theirs. -/
theorem entered_append (h : Lists right entries) :
    entered (right ++ rest) = entries ++ entered rest := by
  unfold entered
  induction h with
  | nil => rfl
  | skip hline _ ih =>
    rw [List.cons_append, List.map_cons, hline.interpret_eq]
    exact ih
  | entry hline _ ih =>
    rw [List.cons_append, List.map_cons, hline.interpret_eq]
    exact congrArg (_ :: ·) ih

theorem entered_of_lists (h : Lists lines entries) : entered lines = entries := by
  have hnil : entered [] = [] := rfl
  have hentered := @entered_append lines [] entries h
  rwa [List.append_nil, hnil, List.append_nil] at hentered

theorem entered_of_fault (h : Lists right entries) (hbad : Says bad (.error fault)) :
    entered (right ++ bad :: rest) = entries := by
  rw [entered_append h, entered, List.map_cons, hbad.interpret_eq]
  exact List.append_nil entries

/-- Loading enters the words before the first fault, whatever comes of it. -/
theorem trie_appendLines (t : Trie) (number : Nat) (lines : List (Except ReadFailure String)) :
    (t.appendLines number lines).trie = t.insertAll (entered lines) := by
  rcases lists_or_exists_fault lines with
    ⟨entries, hlists⟩ | ⟨right, bad, rest, entries, fault, rfl, hlists, hbad⟩
  · rw [appendLines_of_lists hlists, entered_of_lists hlists]
  · rw [appendLines_of_fault hlists hbad, entered_of_fault hlists hbad]

/-- Loading the content of a file enters the entries of its lines in order. If no line has a fault,
all are entered and counted; otherwise those before the first fault are entered, and the fault is
reported with the number of its line. -/
theorem append_enters_before_fault (t : Trie) (content : Bytes) :
    Lined 10 13 content (Text.lines 10 13 content) ∧
    (∀ entries, Lists ((Text.lines 10 13 content).map FileNode.spell) entries →
      t.append content = ⟨t.insertAll entries, .ok entries.length⟩) ∧
    (∀ right bad rest entries fault, Text.lines 10 13 content = right ++ bad :: rest →
      Lists (right.map FileNode.spell) entries → Says (FileNode.spell bad) (.error fault) →
      t.append content =
        ⟨t.insertAll entries, .error (.badLine (right.length + 1) fault)⟩) ∧
    ((∃ entries, Lists ((Text.lines 10 13 content).map FileNode.spell) entries) ∨
      ∃ right bad rest entries fault, Text.lines 10 13 content = right ++ bad :: rest ∧
        Lists (right.map FileNode.spell) entries ∧ Says (FileNode.spell bad) (.error fault)) := by
  refine ⟨lined_lines (by decide) content, fun entries hlists => appendLines_of_lists hlists,
    fun right bad rest entries fault hlines hlists hbad => ?_, ?_⟩
  · have hload := @appendLines_of_fault t 1 _ (rest.map FileNode.spell) _ _ _ hlists hbad
    rw [Trie.append, FileNode.linesOf, hlines, List.map_append, List.map_cons, hload,
      List.length_map, Nat.add_comm]
  · refine (lists_or_exists_fault _).imp_right fun h => ?_
    obtain ⟨right, bad, rest, entries, fault, hlines, hlists, hbad⟩ := h
    obtain ⟨right', left, hcut, rfl, hleft⟩ := List.map_eq_append_iff.1 hlines
    obtain ⟨bad', rest', rfl, rfl, rfl⟩ := List.map_eq_cons_iff.1 hleft
    exact ⟨right', bad', rest', entries, fault, hcut, hlists, hbad⟩

/-- A listing of a comment, a noun, and a word that is given no category. -/
def petListing : Bytes := encode "# pets\n dog | n \r\nbird|ADV\n"

/-- The noun is entered, and the fault is that of the third line. -/
theorem petListing_append_enters :
    Trie.empty.append petListing =
      ⟨Trie.empty.insert "dog" ⟨.noun, .any⟩,
        .error (.badLine 3 (.unknownCategory "ADV"))⟩ := by
  have hlines : Text.lines 10 13 petListing =
      [encode "# pets", encode " dog | n "] ++ encode "bird|ADV" :: [] := by decide
  have hspell (s : String) : FileNode.spell (encode s) = .ok s := by
    rw [FileNode.spell, decode?_encode]
  have hcomment : Says (.ok "# pets") (.ok none) :=
    .comment (rfl : trim "# pets".toList = '#' :: " pets".toList)
  have hdog : Says (.ok " dog | n ") (.ok (some ("dog", ⟨.noun, .any⟩))) := by
    have hfields : Fields "dog | n".toList "dog ".toList " n".toList none :=
      @Fields.two "dog ".toList " n".toList (by decide) (by decide)
    exact .entry ⟨by decide, by decide, by decide⟩ hfields (by decide)
      (names_category_iff.2 (by decide +kernel)) .absent
  have hbird : Says (FileNode.spell (encode "bird|ADV")) (.error (.unknownCategory "ADV")) := by
    have hfields : Fields "bird|ADV".toList "bird".toList "ADV".toList none :=
      @Fields.two "bird".toList "ADV".toList (by decide) (by decide)
    rw [hspell]
    exact .category ⟨by decide, by decide, by decide⟩ hfields (by decide)
      (category_unknown_iff.2 (by decide +kernel))
  have hlists : Lists ([encode "# pets", encode " dog | n "].map FileNode.spell)
      [("dog", ⟨.noun, .any⟩)] := by
    rw [List.map_cons, List.map_singleton, hspell, hspell]
    exact .skip hcomment (.entry hdog .nil)
  exact (append_enters_before_fault .empty petListing).2.2.1 _ _ _ _ _ hlines hlists hbird

end Concord
