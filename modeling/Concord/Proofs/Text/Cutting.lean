import Concord.Text.Pieces

/-!
# Words, lines and ends of a text

What `words`, `lines` and `strip` make of a text that is given by its parts. A text without blanks
is one word, and a blank at the front belongs to no word. Lines are cut off one by one. Stripping
removes everything there is to remove at both ends and nothing else.

Main statements: `words_of_not_blank`; `pieces_intercalate` and `pieces_ended`, what is put together
with breaks is cut into the same parts; `lined_lines`, lines are cut as `Lined` says; `exists_strip`
with `trimmed_strip`, and `strip_append`, which together describe the result of stripping
completely.
-/

namespace Concord.Text

variable {α : Type} {p : α → Bool}

/-! ## Words -/

theorem pieces_of_not_break {as : List α} (h : ∀ a ∈ as, p a = false) : pieces p as = [as] := by
  induction as with
  | nil => rfl
  | cons a as ih =>
    obtain ⟨ha, has⟩ := List.forall_mem_cons.1 h
    rw [pieces_cons, if_neg (by simp [ha]), ih has]
    rfl

/-- What stands before the first break is the first piece. -/
theorem pieces_first {as : List α} (h : ∀ a ∈ as, p a = false) (bs : List α) {b : α}
    (hb : p b = true) : pieces p (as ++ b :: bs) = as :: pieces p bs := by
  rw [pieces_append p as bs hb, pieces_of_not_break h]
  rfl

/-- A list has no break, or a first one. -/
theorem not_break_or_exists_first (p : α → Bool) (as : List α) :
    (∀ a ∈ as, p a = false) ∨
      ∃ front b back, as = front ++ b :: back ∧ (∀ a ∈ front, p a = false) ∧ p b = true := by
  induction as with
  | nil => exact Or.inl (List.forall_mem_nil _)
  | cons a as ih =>
    cases ha : p a with
    | true => exact Or.inr ⟨[], a, as, rfl, List.forall_mem_nil _, ha⟩
    | false =>
      rcases ih with hnone | ⟨front, b, back, rfl, hfront, hb⟩
      · exact Or.inl (List.forall_mem_cons.2 ⟨ha, hnone⟩)
      · exact Or.inr ⟨a :: front, b, back, rfl, List.forall_mem_cons.2 ⟨ha, hfront⟩, hb⟩

section Separated

variable [BEq α] [LawfulBEq α] {b : α}

theorem beq_eq_false_of_not_mem {as : List α} (h : b ∉ as) : ∀ a ∈ as, (a == b) = false :=
  fun _ ha => beq_eq_false_iff_ne.2 fun heq => h (heq ▸ ha)

/-- Parts with a break between any two of them are the pieces. -/
theorem pieces_intercalate {ps : List (List α)} (hne : ps ≠ []) (h : ∀ q ∈ ps, b ∉ q) :
    pieces (· == b) ([b].intercalate ps) = ps := by
  induction ps with
  | nil => exact absurd rfl hne
  | cons q ps ih =>
    obtain ⟨hq, hps⟩ := List.forall_mem_cons.1 h
    by_cases hnil : ps = []
    · subst hnil
      rw [List.intercalate_singleton, pieces_of_not_break (beq_eq_false_of_not_mem hq)]
    · rw [List.intercalate_cons_of_ne_nil hnil, List.append_assoc, List.singleton_append,
        pieces_first (beq_eq_false_of_not_mem hq) _ BEq.rfl, ih hnil hps]

/-- Parts with a break after each of them are the pieces, but for the last, which is empty. -/
theorem pieces_ended {ps : List (List α)} (h : ∀ q ∈ ps, b ∉ q) :
    pieces (· == b) (ps.flatMap (· ++ [b])) = ps ++ [[]] := by
  induction ps with
  | nil => rfl
  | cons q ps ih =>
    obtain ⟨hq, hps⟩ := List.forall_mem_cons.1 h
    rw [List.flatMap_cons, List.append_assoc, List.singleton_append,
      pieces_first (beq_eq_false_of_not_mem hq) _ BEq.rfl, ih hps, List.cons_append]

end Separated

@[simp] theorem words_nil : words [] = [] := rfl

/-- A blank at the front belongs to no word. -/
theorem words_cons_blank (cs : List Char) {c : Char} (hc : isBlank c = true) :
    words (c :: cs) = words cs := by
  simpa using words_append [] cs hc

/-- Blanks at the front belong to no word. -/
theorem words_blanks_append {blanks : List Char} (h : ∀ c ∈ blanks, isBlank c = true)
    (cs : List Char) : words (blanks ++ cs) = words cs := by
  induction blanks with
  | nil => rfl
  | cons c blanks ih =>
    obtain ⟨hc, hblanks⟩ := List.forall_mem_cons.1 h
    rw [List.cons_append, words_cons_blank _ hc, ih hblanks]

/-- Nor do blanks at the end. -/
theorem words_append_blanks (cs : List Char) {blanks : List Char}
    (h : ∀ c ∈ blanks, isBlank c = true) : words (cs ++ blanks) = words cs := by
  cases blanks with
  | nil => rw [List.append_nil]
  | cons c blanks =>
    obtain ⟨hc, hblanks⟩ := List.forall_mem_cons.1 h
    have hnone := words_blanks_append hblanks []
    rw [List.append_nil] at hnone
    rw [words_append _ _ hc, hnone, words_nil, List.append_nil]

/-- A text without blanks is one word. -/
theorem words_of_not_blank {cs : List Char} (hne : cs ≠ []) (h : ∀ c ∈ cs, isBlank c = false) :
    words cs = [cs] := by
  rw [words, pieces_of_not_break h]
  simp [hne]

/-! ## Lines -/

section Lines

variable [BEq α] [LawfulBEq α] {lf cr : α}

/-- How a text is cut into lines: a line feed ends a line, one carriage return before it goes too,
and what follows the last line feed is a line if there is anything. -/
inductive Lined (lf cr : α) : List α → List (List α) → Prop
  | nil : Lined lf cr [] []
  | last {line : List α} : line ≠ [] → lf ∉ line → Lined lf cr line [line]
  | feed {line rest : List α} {ls : List (List α)} : lf ∉ line → line.getLast? ≠ some cr →
      Lined lf cr rest ls → Lined lf cr (line ++ lf :: rest) (line :: ls)
  | returnFeed {line rest : List α} {ls : List (List α)} : lf ∉ line →
      Lined lf cr rest ls → Lined lf cr (line ++ cr :: lf :: rest) (line :: ls)

/-- The first line is cut off, without one carriage return at its end. -/
theorem lines_feed {line : List α} (h : lf ∉ line) (rest : List α) :
    lines lf cr (line ++ lf :: rest) = dropReturn cr line :: lines lf cr rest := by
  have hne := pieces_ne_nil (· == lf) rest
  unfold lines
  rw [pieces_first (beq_eq_false_of_not_mem h) rest BEq.rfl]
  simp only [List.dropLast_cons_of_ne_nil hne, List.getLast?_cons_of_ne_nil hne, List.map_cons,
    List.cons_append]

theorem lines_last {line : List α} (hne : line ≠ []) (h : lf ∉ line) :
    lines lf cr line = [line] := by
  unfold lines
  rw [pieces_of_not_break (beq_eq_false_of_not_mem h)]
  simp [hne]

theorem dropReturn_concat (line : List α) : dropReturn cr (line ++ [cr]) = line := by
  simp [dropReturn]

theorem dropReturn_of_ne {line : List α} (h : line.getLast? ≠ some cr) :
    dropReturn cr line = line := by
  simp [dropReturn, h]

/-- Lines are cut as `Lined` says. -/
theorem lined_lines (hne : cr ≠ lf) (as : List α) : Lined lf cr as (lines lf cr as) := by
  induction hlen : as.length using Nat.strongRecOn generalizing as with
  | ind k ih =>
    rcases not_break_or_exists_first (· == lf) as with hnone | ⟨line, b, rest, rfl, hline, hb⟩
    · have hmem : lf ∉ as := fun h => by simpa using hnone lf h
      by_cases hnil : as = []
      · subst hnil
        exact .nil
      · rw [lines_last hnil hmem]
        exact .last hnil hmem
    · obtain rfl : b = lf := by simpa using hb
      have hmem : b ∉ line := fun h => by simpa using hline b h
      have hrest : Lined b cr rest (lines b cr rest) := by
        refine ih rest.length ?_ rest rfl
        simp only [List.length_append, List.length_cons] at hlen
        omega
      rw [lines_feed hmem]
      by_cases hreturn : line.getLast? = some cr
      · obtain ⟨front, rfl⟩ := List.getLast?_eq_some_iff.1 hreturn
        rw [dropReturn_concat, List.append_assoc]
        exact .returnFeed (fun h => hmem (List.mem_append_left [cr] h)) hrest
      · rw [dropReturn_of_ne hreturn]
        exact .feed hmem hreturn hrest

/-- What is made of the lines of a text can be made of the parts between its line feeds, if nothing
is made of an empty line and a carriage return at the end makes no difference. -/
theorem filterMap_lines {β : Type} {f : List α → Option β} (hempty : f [] = none)
    (hreturn : ∀ line, f (line ++ [cr]) = f line) (as : List α) :
    (lines lf cr as).filterMap f = (pieces (· == lf) as).filterMap f := by
  have hdrop : f ∘ dropReturn cr = f := by
    funext line
    by_cases hlast : line.getLast? = some cr
    · obtain ⟨front, rfl⟩ := List.getLast?_eq_some_iff.1 hlast
      rw [Function.comp_apply, dropReturn_concat, hreturn]
    · rw [Function.comp_apply, dropReturn_of_ne hlast]
  obtain ⟨front, last, hpieces⟩ : ∃ front last, pieces (· == lf) as = front ++ [last] :=
    ⟨_, _, (List.dropLast_concat_getLast (pieces_ne_nil _ as)).symm⟩
  have hfront : (front.map (dropReturn cr)).filterMap f = front.filterMap f := by
    rw [List.filterMap_map, hdrop]
  have hlast : ([last].filter (!·.isEmpty)).filterMap f = [last].filterMap f := by
    cases last <;> simp [hempty]
  unfold lines
  simp only [hpieces, List.dropLast_concat, List.getLast?_concat, Option.toList_some,
    List.filterMap_append, hfront, hlast]

end Lines

/-! ## Stripping -/

/-- No element at either end satisfies `p`. -/
def Trimmed (p : α → Bool) (as : List α) : Prop :=
  (∀ a, as.head? = some a → p a = false) ∧ ∀ a, as.getLast? = some a → p a = false

/-- What `dropWhile` leaves begins with an element that it keeps. -/
theorem head?_dropWhile {as : List α} {a : α} (h : (as.dropWhile p).head? = some a) :
    p a = false := by
  have hnot := List.head?_dropWhile_not p as
  rw [h] at hnot
  simpa using hnot

theorem all_of_mem_takeWhile {as : List α} : ∀ a ∈ as.takeWhile p, p a = true :=
  List.all_eq_true.1 List.all_takeWhile

/-- Stripping takes elements off both ends. -/
theorem exists_strip (p : α → Bool) (as : List α) :
    ∃ lead trail, as = lead ++ strip p as ++ trail ∧ (∀ a ∈ lead, p a = true) ∧
      ∀ a ∈ trail, p a = true := by
  have hfront : as.takeWhile p ++ as.dropWhile p = as := List.takeWhile_append_dropWhile
  have hback : strip p as ++ ((as.dropWhile p).reverse.takeWhile p).reverse = as.dropWhile p := by
    rw [strip, ← List.reverse_append, List.takeWhile_append_dropWhile, List.reverse_reverse]
  refine ⟨as.takeWhile p, ((as.dropWhile p).reverse.takeWhile p).reverse, ?_,
    all_of_mem_takeWhile, fun a ha => all_of_mem_takeWhile a (List.mem_reverse.1 ha)⟩
  rw [List.append_assoc, hback, hfront]

/-- Stripping leaves nothing that it could take off. -/
theorem trimmed_strip (p : α → Bool) (as : List α) : Trimmed p (strip p as) := by
  refine ⟨fun a ha => ?_, fun a ha => ?_⟩
  · have hsuffix : (as.dropWhile p).reverse.dropWhile p <:+ (as.dropWhile p).reverse :=
      List.dropWhile_suffix p
    have hprefix : strip p as <+: as.dropWhile p := by
      rw [strip, ← List.reverse_suffix, List.reverse_reverse]
      exact hsuffix
    obtain ⟨rest, hrest⟩ := hprefix
    have hhead : (as.dropWhile p).head? = some a := by
      rw [← hrest, List.head?_append, ha]
      rfl
    exact head?_dropWhile hhead
  · rw [strip, List.getLast?_reverse] at ha
    exact head?_dropWhile ha

/-- What stands trimmed between elements that are taken off is what is left. -/
theorem strip_append {lead as trail : List α} (hlead : ∀ a ∈ lead, p a = true)
    (htrail : ∀ a ∈ trail, p a = true) (has : Trimmed p as) :
    strip p (lead ++ as ++ trail) = as := by
  have htrail' : ∀ a ∈ trail.reverse, p a = true := fun a ha => htrail a (List.mem_reverse.1 ha)
  have hkeep {bs : List α} (hbs : ∀ b, bs.head? = some b → p b = false) : bs.dropWhile p = bs := by
    cases bs with
    | nil => rfl
    | cons b bs => exact List.dropWhile_cons_of_neg (by simp [hbs b rfl])
  rw [strip, List.append_assoc, List.dropWhile_append_of_pos hlead]
  cases as with
  | nil =>
    have hall : (trail ++ []).dropWhile p = [] := List.dropWhile_append_of_pos htrail
    rw [List.append_nil] at hall
    rw [List.nil_append, hall]
    rfl
  | cons b bs =>
    have hhead : (b :: bs ++ trail).dropWhile p = b :: bs ++ trail :=
      hkeep fun a ha => has.1 a ha
    have hlast : (b :: bs).reverse.dropWhile p = (b :: bs).reverse := by
      refine hkeep fun a ha => has.2 a ?_
      rwa [List.head?_reverse] at ha
    rw [hhead, List.reverse_append, List.dropWhile_append_of_pos htrail', hlast,
      List.reverse_reverse]

/-- What is taken off at the end makes no difference. -/
theorem strip_append_trail (as : List α) {trail : List α} (h : ∀ a ∈ trail, p a = true) :
    strip p (as ++ trail) = strip p as := by
  obtain ⟨lead, rest, has, hlead, hrest⟩ := exists_strip p as
  have hall : ∀ a ∈ rest ++ trail, p a = true := by
    intro a ha
    exact (List.mem_append.1 ha).elim (hrest a) (h a)
  calc strip p (as ++ trail)
      = strip p (lead ++ strip p as ++ (rest ++ trail)) := by
        rw [← List.append_assoc, ← has]
    _ = strip p as := strip_append hlead hall (trimmed_strip p as)

theorem trim_concat_blank (cs : List Char) {c : Char} (hc : isBlank c = true) :
    trim (cs ++ [c]) = trim cs :=
  strip_append_trail cs (List.forall_mem_singleton.2 hc)

theorem strip_of_trimmed {as : List α} (h : Trimmed p as) : strip p as = as := by
  have hkept := strip_append (List.forall_mem_nil _) (List.forall_mem_nil _) h
  rwa [List.nil_append, List.append_nil] at hkept

/-- Nothing is left where everything is taken off. -/
theorem strip_eq_nil_iff {as : List α} : strip p as = [] ↔ ∀ a ∈ as, p a = true := by
  constructor
  · intro h
    obtain ⟨lead, trail, has, hlead, htrail⟩ := exists_strip p as
    rw [h, List.append_nil] at has
    rw [has]
    exact List.forall_mem_append.2 ⟨hlead, htrail⟩
  · intro h
    have htrimmed : Trimmed p [] := by simp [Trimmed]
    simpa using strip_append h (List.forall_mem_nil _) htrimmed

/-- Stripping twice comes to stripping once. -/
theorem strip_strip (p : α → Bool) (as : List α) : strip p (strip p as) = strip p as :=
  strip_of_trimmed (trimmed_strip p as)

/-- What begins with an element that is kept begins with it when it is stripped. -/
theorem head?_strip {as : List α} (h : ∀ a, as.head? = some a → p a = false) :
    (strip p as).head? = as.head? := by
  obtain ⟨lead, trail, has, hlead, htrail⟩ := exists_strip p as
  have hnot {b : α} {bs : List α} (has : as = b :: bs) (hb : p b = true) : False := by
    simp [h b (has ▸ rfl)] at hb
  cases lead with
  | cons b lead => exact (hnot has (hlead b List.mem_cons_self)).elim
  | nil =>
    cases hstrip : strip p as with
    | cons a rest =>
      rw [has, hstrip]
      rfl
    | nil =>
      rw [hstrip] at has
      cases trail with
      | nil =>
        rw [has]
        rfl
      | cons b trail => exact (hnot has (htrail b List.mem_cons_self)).elim

theorem mem_of_mem_strip {as : List α} {a : α} (h : a ∈ strip p as) : a ∈ as := by
  obtain ⟨lead, trail, has, -, -⟩ := exists_strip p as
  rw [has]
  exact List.mem_append_left trail (List.mem_append_right lead h)

end Concord.Text
