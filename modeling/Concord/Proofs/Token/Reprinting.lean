import Concord.Proofs.Grammar.Lockstep
import Concord.Proofs.Token.Joining

/-!
# Tokens that are printed

The words of tokens, written one after the other with blanks between them, are cut into the same
tokens again. For a word is cut as far as it can be (`WellCut`): it has no blank, no comma unless it
is one, and no stop at its ends, and it is in lower case already. So it is one unit and comes out as
it went in, whatever stands around it. Only the positions may move, because units of nothing but
stops are not printed.

Main statements: `wellCut_of_mem_rawUnits`, the words of units are well cut; `units_printed`, these
words are the units of what is printed; `tokenize_printed`, the tokens come back, and the same is
found in them.
-/

namespace Concord

open Text

/-! ## Words -/

/-- A word that is cut as far as it can be. -/
structure WellCut (w : List Char) : Prop where
  ne_nil : w ≠ []
  not_blank : ∀ c ∈ w, isBlank c = false
  trimmed : Trimmed isStop w
  comma : ',' ∈ w → w = [',']
  lower : lowercase w = w

/-- A unit is a comma or holds none, and it holds no blank. -/
theorem comma_or_inner_of_mem_rawUnits {text unit : List Char} (h : unit ∈ rawUnits text) :
    unit = [','] ∨ ∀ c ∈ unit, isInner c = true := by
  induction text using rawUnits.induct with
  | case1 => exact absurd h (by rw [rawUnits]; exact List.not_mem_nil)
  | case2 cs ih =>
    rw [rawUnits_comma, List.mem_cons] at h
    exact h.elim Or.inl ih
  | case3 c cs _ hblank ih => exact ih (rawUnits_blank cs hblank ▸ h)
  | case4 c cs hne hblank ih =>
    have hc : isInner c = true := isInner_iff.2 ⟨hne, by simpa using hblank⟩
    rw [rawUnits_inner cs hc, List.mem_cons] at h
    rcases h with rfl | h
    · exact Or.inr (List.forall_mem_cons.2 ⟨hc, all_of_mem_takeWhile⟩)
    · exact ih h

theorem wellCut_comma : WellCut [','] where
  ne_nil := List.cons_ne_nil _ _
  not_blank := List.forall_mem_singleton.2 (by decide)
  trimmed := by constructor <;> simp [isStop]
  comma _ := rfl
  lower := lowercase_comma

/-- The word of a unit is well cut. -/
theorem wellCut_of_mem_rawUnits {text unit : List Char} (h : unit ∈ rawUnits text)
    (hne : strip isStop unit ≠ []) : WellCut (lowercase (strip isStop unit)) := by
  rcases comma_or_inner_of_mem_rawUnits h with rfl | hinner
  · rw [strip_of_trimmed wellCut_comma.trimmed, lowercase_comma]
    exact wellCut_comma
  · have hstripped : ∀ c ∈ strip isStop unit, isInner c = true :=
      fun c hc => hinner c (mem_of_mem_strip hc)
    exact {
      ne_nil := fun hnil => hne (lowercaseAfter_eq_nil.1 hnil)
      not_blank := not_blank_lowercase fun c hc => (isInner_iff.1 (hstripped c hc)).2
      trimmed := trimmed_isStop_lowercase (trimmed_strip isStop unit)
      comma := fun hmem => by
        rcases mem_lowercaseAfter hmem with hmem | hdelimiter
        · exact absurd rfl (isInner_iff.1 (hstripped ',' hmem)).1
        · exact absurd hdelimiter (by decide)
      lower := lowercase_lowercase _ }

/-- The words of a text are well cut. -/
theorem wellCut_of_mem_scan {text : List Char} {word : String} {number : Nat}
    (h : (word, number) ∈ scan text) : WellCut word.toList := by
  obtain ⟨⟨unit, _⟩, hunit, hscan⟩ := List.mem_filterMap.1 h
  have hmem : unit ∈ rawUnits text := List.fst_mem_of_mem_zipIdx hunit
  have hne : strip isStop unit ≠ [] := fun hnil => by simp [unitWord?, hnil] at hscan
  have hword : String.ofList (lowercase (strip isStop unit)) = word := by
    simp only [unitWord?, if_neg hne, Option.some.injEq, Prod.mk.injEq] at hscan
    exact hscan.1
  rw [← hword, String.toList_ofList]
  exact wellCut_of_mem_rawUnits hmem hne

/-- A well cut word is one unit and stays as it is. -/
theorem WellCut.units_eq {w : List Char} (h : WellCut w) : units w = [w] := by
  by_cases hcomma : ',' ∈ w
  · rw [h.comma hcomma, units_comma]
    rfl
  · have hinner : ∀ c ∈ w, isInner c = true := fun c hc =>
      isInner_iff.2 ⟨fun heq => hcomma (heq ▸ hc), h.not_blank c hc⟩
    have hunits : units (w ++ []) = lowercase w :: units [] :=
      units_inner h.ne_nil hinner fun c hc => absurd hc (by simp)
    rw [List.append_nil, h.lower] at hunits
    exact hunits

/-! ## Tokens -/

variable {lexicon : Lexicon} {text : String} {t : Token} {ts : List Token}

/-- A token with a well cut word that gives the token back wherever it stands. -/
structure Token.Lasts (lexicon : Lexicon) (t : Token) : Prop where
  wellCut : WellCut t.word.toList
  classify_eq (position : Nat) :
    classify lexicon t.word position = .ok { t with position := position }

theorem exists_of_lookUpAll {ws : List (String × Nat)} (h : lookUpAll lexicon ws = .ok ts) :
    ∀ t ∈ ts, ∃ word ∈ ws, scanToken? lexicon word = some t := by
  unfold lookUpAll at h
  split at h
  · exact absurd h (by simp)
  · intro t ht
    rw [← Except.ok.inj h] at ht
    exact List.mem_filterMap.1 ht

/-- The token of a word carries the word, and but for its position it is the same everywhere. -/
theorem scanToken_elsewhere {word : String} {number : Nat}
    (h : scanToken? lexicon (word, number) = some t) :
    t.word = word ∧
      ∀ position, scanToken? lexicon (word, position) = some { t with position := position } := by
  unfold scanToken? at h ⊢
  by_cases hcomma : word = ","
  · rw [if_pos hcomma] at h
    obtain rfl := Option.some.inj h
    exact ⟨hcomma.symm, fun _ => if_pos hcomma⟩
  · rw [if_neg hcomma] at h
    obtain ⟨entry, hentry, rfl⟩ := Option.map_eq_some_iff.1 h
    refine ⟨rfl, fun position => ?_⟩
    simp only [if_neg hcomma, hentry]
    rfl

/-- The tokens of a text last. -/
theorem lasts_of_tokenize (h : tokenize lexicon text = .ok ts) : ∀ t ∈ ts, t.Lasts lexicon := by
  intro t ht
  rw [tokenize_eq_lookUpAll] at h
  obtain ⟨⟨word, number⟩, hword, htoken⟩ := exists_of_lookUpAll h t ht
  obtain ⟨hcarried, helsewhere⟩ := scanToken_elsewhere htoken
  refine ⟨?_, fun position => ?_⟩
  · rw [hcarried]
    exact wellCut_of_mem_scan hword
  · rw [hcarried]
    exact classify_of_some (hcarried ▸ helsewhere position)

/-- The word for which a text is refused is well cut, too. -/
theorem wellCut_of_tokenize_error {word : String} {position : Nat}
    (h : tokenize lexicon text = .error (.unknownWord word position)) : WellCut word.toList := by
  rw [tokenize_eq_lookUpAll, lookUpAll] at h
  split at h
  · next hfind =>
    obtain ⟨rfl, rfl⟩ := LexicalError.unknownWord.inj (Except.error.inj h)
    exact wellCut_of_mem_scan (List.mem_of_find?_eq_some hfind)
  · exact absurd h (by simp)

/-! ## Printing -/

/-- The words of some tokens with blanks between them. -/
def printed (ts : List Token) : String := " ".intercalate (ts.map Token.word)

/-- The tokens with the positions from `position` on, without gaps. -/
def renumbered (position : Nat) : List Token → List Token
  | [] => []
  | t :: ts => { t with position := position } :: renumbered (position + 1) ts

theorem word_renumbered (position : Nat) (ts : List Token) :
    (renumbered position ts).map Token.word = ts.map Token.word := by
  induction ts generalizing position with
  | nil => rfl
  | cons t ts ih => rw [renumbered, List.map_cons, List.map_cons, ih]

theorem entry_renumbered (position : Nat) (ts : List Token) :
    (renumbered position ts).map Token.entry = ts.map Token.entry := by
  induction ts generalizing position with
  | nil => rfl
  | cons t ts ih => rw [renumbered, List.map_cons, List.map_cons, ih, Token.entry, Token.entry]

theorem position_renumbered (position : Nat) (ts : List Token) :
    (renumbered position ts).map Token.position = List.range' position ts.length := by
  induction ts generalizing position with
  | nil => rfl
  | cons t ts ih => rw [renumbered, List.map_cons, ih, List.length_cons, List.range'_succ]

/-- Printed words are the units of what is printed. -/
theorem units_printed (h : ∀ t ∈ ts, WellCut t.word.toList) :
    units (printed ts).toList = ts.map (String.toList ∘ Token.word) := by
  induction ts with
  | nil => rfl
  | cons t ts ih =>
    obtain ⟨ht, hts⟩ := List.forall_mem_cons.1 h
    by_cases hnil : ts = []
    · subst hnil
      rw [printed, List.map_singleton, String.intercalate_singleton, ht.units_eq]
      rfl
    · have hprinted : (printed (t :: ts)).toList =
          t.word.toList ++ ' ' :: (printed ts).toList := by
        rw [printed, List.map_cons, String.intercalate_cons_of_ne_nil (by simpa using hnil)]
        simp [printed]
      rw [hprinted, units_append_blank _ _ (by decide), ht.units_eq, ih hts]
      rfl

/-- From their own words lasting tokens come back, with new positions. -/
theorem classifyUnits_words (h : ∀ t ∈ ts, t.Lasts lexicon) (position : Nat) :
    classifyUnits lexicon position (ts.map (String.toList ∘ Token.word)) =
      .ok (renumbered position ts) := by
  induction ts generalizing position with
  | nil => rfl
  | cons t ts ih =>
    obtain ⟨ht, hts⟩ := List.forall_mem_cons.1 h
    obtain ⟨c, cs, hword⟩ := List.exists_cons_of_ne_nil ht.wellCut.ne_nil
    have hstrip : strip isStop (c :: cs) = c :: cs := hword ▸ strip_of_trimmed ht.wellCut.trimmed
    have hofList : String.ofList (c :: cs) = t.word := by rw [← hword, String.ofList_toList]
    rw [List.map_cons, Function.comp_apply, hword, classifyUnits, hstrip, ih hts]
    simp only [hofList, ht.classify_eq]
    rfl

/-- The words of tokens are well cut. Printed with blanks between them they give the same words,
categories and numbers again, at the positions 1, 2 and so on; so a program of the tokens that come
back has as many sentences, and errors of the same shapes. -/
theorem tokenize_printed (h : tokenize lexicon text = .ok ts) :
    (∀ t ∈ ts, WellCut t.word.toList) ∧
    ∃ us, tokenize lexicon (printed ts) = .ok us ∧
      us.map Token.word = ts.map Token.word ∧ us.map Token.entry = ts.map Token.entry ∧
      us.map Token.position = List.range' 1 ts.length ∧
      (parseProgram us).sentences = (parseProgram ts).sentences ∧
      (parseProgram us).errors.map SyntaxError.shape =
        (parseProgram ts).errors.map SyntaxError.shape := by
  have hlasts := lasts_of_tokenize h
  have hwellCut : ∀ t ∈ ts, WellCut t.word.toList := fun t ht => (hlasts t ht).wellCut
  have hagain : tokenize lexicon (printed ts) = .ok (renumbered 1 ts) := by
    rw [tokenize, units_printed hwellCut, classifyUnits_words hlasts]
  have hentries := entry_renumbered 1 ts
  have halike := parseProgram_alike (alike_twins _ _) (forall₂_twins hentries.symm)
  exact ⟨hwellCut, renumbered 1 ts, hagain, word_renumbered 1 ts, hentries,
    position_renumbered 1 ts, halike.sentences, halike.shapes (alike_twins _ _)⟩

/-- A lexicon with a word whose lower-case form depends on its place. -/
def roadLexicon : Lexicon
  | "these" => some ⟨.determiner, .plural⟩
  | "οδος" => some ⟨.noun, .singularCountable⟩
  | "he" => some ⟨.pronoun, .singular⟩
  | _ => none

/-- The tokens of "These  ΟΔΟΣ!, ... He?", which leave a gap. -/
def theseRoadHe : List Token :=
  [⟨"these", .determiner, .plural, 1⟩, ⟨"οδος", .noun, .singularCountable, 2⟩,
    ⟨",", .comma, .any, 3⟩, ⟨"he", .pronoun, .singular, 5⟩]

/-- Printed in lower case and without its stops the text has its tokens again, without the gap. -/
theorem theseRoadHe_printed :
    tokenize roadLexicon "These  ΟΔΟΣ!, ... He?" = .ok theseRoadHe ∧
    printed theseRoadHe = "these οδος , he" ∧
    (∀ t ∈ theseRoadHe, WellCut t.word.toList) ∧
    ∃ us, tokenize roadLexicon "these οδος , he" = .ok us ∧
      us.map Token.word = ["these", "οδος", ",", "he"] ∧ us.map Token.position = [1, 2, 3, 4] ∧
      (parseProgram us).sentences = 0 ∧
      (parseProgram us).errors.map SyntaxError.shape =
        [.determinerAgreement "" .plural "" .singularCountable 0, .unexpectedEnd .verb 0] := by
  have htokens : tokenize roadLexicon "These  ΟΔΟΣ!, ... He?" = .ok theseRoadHe := by
    decide +kernel
  have hreport : parseProgram theseRoadHe =
      ⟨0, [.determinerAgreement "these" .plural "οδος" .singularCountable 2,
        .unexpectedEnd .verb 6]⟩ := by
    cbv
  have hprinted : printed theseRoadHe = "these οδος , he" := by decide
  obtain ⟨hwords, us, hagain, hword, -, hposition, hsentences, hshapes⟩ := tokenize_printed htokens
  rw [hprinted] at hagain
  rw [hreport] at hsentences hshapes
  exact ⟨htokens, hprinted, hwords, us, hagain, hword, hposition, hsentences, hshapes⟩

end Concord
