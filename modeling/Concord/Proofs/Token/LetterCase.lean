import Mathlib.Data.List.Permutation
import Concord.Proofs.Token.Scan
import Concord.Verdict

/-!
# Letter case

What a text is read as does not depend on the case of its letters: two texts with the same
lower-case form have the same tokens, or the same unknown word, by every lexicon. The text is
lower-cased only after its commas were isolated, so this takes two facts: commas can as well be
isolated in the lower-case form, because no letter sees past a comma or past the blanks around it;
and lower-casing twice comes to lower-casing once.

Main statements: `lowercase_isolateCommas`, isolating commas and lower-casing can be done in either
order; `lowercase_map_toLower`, changing the case of ASCII letters does not change the lower-case
form; `tokenize_ignores_case`.
-/

namespace Concord

open Text

/-! ## Commas -/

/-- No letter sees past a comma, nor past the blank that is set before it. -/
theorem beginsCased_isolateCommas (cs : List Char) :
    beginsCased (isolateCommas cs) = beginsCased cs := by
  induction cs with
  | nil => rfl
  | cons c cs ih =>
    by_cases hcomma : c = ','
    · subst hcomma
      have hspace : Parting ' ' := parting_of_isBlank (by decide)
      rw [isolateCommas_comma, hspace.beginsCased, parting_comma.beginsCased]
    · rw [isolateCommas_cons cs hcomma, beginsCased, beginsCased, ih]

/-- Lower-casing makes no commas. -/
theorem ne_comma_of_mem_lowerChar {before : Bool} {c x : Char} {after : List Char}
    (h : x ∈ lowerChar before c after) (hc : c ≠ ',') : x ≠ ',' := by
  rcases mem_lowerChar h with rfl | hdelimiter
  · exact hc
  · exact (isDelimiter_eq_false_iff.1 hdelimiter).2.1

theorem lowercaseAfter_isolateCommas (before : Bool) (cs : List Char) :
    lowercaseAfter before (isolateCommas cs) = isolateCommas (lowercaseAfter before cs) := by
  induction cs generalizing before with
  | nil => rfl
  | cons c cs ih =>
    by_cases hcomma : c = ','
    · subst hcomma
      have hspace : Parting ' ' := parting_of_isBlank (by decide)
      have hrest : lowercase (isolateCommas cs) = isolateCommas (lowercase cs) := ih false
      rw [isolateCommas_comma, hspace.lowercaseAfter, lowercase, parting_comma.lowercaseAfter,
        lowercase, hspace.lowercaseAfter, hrest, parting_comma.lowercaseAfter, isolateCommas_comma]
    · have hkept : isolateCommas (lowerChar before c cs ++ lowercaseAfter (endsCased before c) cs) =
          lowerChar before c cs ++ isolateCommas (lowercaseAfter (endsCased before c) cs) :=
        isolateCommas_append_of_ne (fun x hx => ne_comma_of_mem_lowerChar hx hcomma) _
      rw [isolateCommas_cons cs hcomma, lowercaseAfter, lowercaseAfter, hkept, ih,
        lowerChar_congr (beginsCased_isolateCommas cs)]

/-- Isolating commas and lower-casing can be done in either order. -/
theorem lowercase_isolateCommas (cs : List Char) :
    lowercase (isolateCommas cs) = isolateCommas (lowercase cs) :=
  lowercaseAfter_isolateCommas false cs

/-! ## Units -/

/-- A text and its lower-case form have the same units. -/
theorem units_lowercase (text : List Char) : units (lowercase text) = units text := by
  unfold units
  rw [← lowercase_isolateCommas, lowercase_lowercase]

theorem units_of_lowercase_eq {us vs : List Char} (h : lowercase us = lowercase vs) :
    units us = units vs := by
  rw [← units_lowercase us, h, units_lowercase]

/-! ## ASCII letters -/

/-- Lower-casing does not tell the two characters apart. -/
structure SameLower (c d : Char) : Prop where
  cased : isCased d = isCased c
  ignorable : isCaseIgnorable d = isCaseIgnorable c
  sigma : d = 'Σ' ↔ c = 'Σ'
  dotted : d = 'İ' ↔ c = 'İ'
  code : lowerBy d.toNat lowerTable = lowerBy c.toNat lowerTable

instance (c d : Char) : Decidable (SameLower c d) :=
  decidable_of_iff (isCased d = isCased c ∧ isCaseIgnorable d = isCaseIgnorable c ∧
      (d = 'Σ' ↔ c = 'Σ') ∧ (d = 'İ' ↔ c = 'İ') ∧
      lowerBy d.toNat lowerTable = lowerBy c.toNat lowerTable)
    ⟨fun h => ⟨h.1, h.2.1, h.2.2.1, h.2.2.2.1, h.2.2.2.2⟩,
      fun h => ⟨h.cased, h.ignorable, h.sigma, h.dotted, h.code⟩⟩

namespace SameLower

variable {c d : Char}

theorem refl (c : Char) : SameLower c c := ⟨rfl, rfl, Iff.rfl, Iff.rfl, rfl⟩

theorem lowerChar_eq (h : SameLower c d) (before : Bool) (after : List Char) :
    lowerChar before d after = lowerChar before c after := by
  simp only [lowerChar, h.sigma, h.dotted, h.code]

theorem endsCased_eq (h : SameLower c d) (before : Bool) :
    endsCased before d = endsCased before c := by
  rw [endsCased, endsCased, h.ignorable, h.cased]

end SameLower

section Exchange

variable {f : Char → Char} (h : ∀ c, SameLower c (f c))
include h

theorem beginsCased_map (cs : List Char) : beginsCased (cs.map f) = beginsCased cs := by
  induction cs with
  | nil => rfl
  | cons c cs ih => rw [List.map_cons, beginsCased, beginsCased, (h c).ignorable, (h c).cased, ih]

/-- Characters can be exchanged for others that are not told apart from them. -/
theorem lowercase_map (cs : List Char) : lowercase (cs.map f) = lowercase cs := by
  have hafter (before : Bool) : lowercaseAfter before (cs.map f) = lowercaseAfter before cs := by
    induction cs generalizing before with
    | nil => rfl
    | cons c cs ih =>
      rw [List.map_cons, lowercaseAfter, lowercaseAfter, (h c).lowerChar_eq, (h c).endsCased_eq,
        lowerChar_congr (beginsCased_map h cs), ih]
  exact hafter false

end Exchange

/-- A capital letter of ASCII is not told apart from its small letter. -/
theorem sameLower_toLower (c : Char) : SameLower c c.toLower := by
  by_cases hascii : c.toNat < 0x80
  · have hletters : ∀ n < 0x80, SameLower (.ofNat n) (Char.ofNat n).toLower := by decide +kernel
    have hc := hletters c.toNat hascii
    rwa [Char.ofNat_toNat] at hc
  · have hself : c.toLower = c := dif_neg fun hupper =>
      hascii (Nat.lt_of_le_of_lt hupper.2 (by decide))
    rw [hself]
    exact .refl c

theorem lowercase_map_toLower (cs : List Char) : lowercase (cs.map Char.toLower) = lowercase cs :=
  lowercase_map sameLower_toLower cs

/-! ## Texts -/

/-- A lexicon gives both texts the same tokens, or the same unknown word; so the same is found in
them, and the verdicts are the same. -/
structure ReadAlike (lexicon : Lexicon) (t u : String) : Prop where
  tokens : tokenize lexicon u = tokenize lexicon t
  report : (tokenize lexicon u).map parseProgram = (tokenize lexicon t).map parseProgram
  verdict : analyze lexicon u = analyze lexicon t

theorem readAlike_of_tokenize_eq {lexicon : Lexicon} {t u : String}
    (h : tokenize lexicon u = tokenize lexicon t) : ReadAlike lexicon t u where
  tokens := h
  report := by rw [h]
  verdict := by rw [analyze, analyze, h]

theorem readAlike_of_lowercase_eq (lexicon : Lexicon) {t u : String}
    (h : lowercase t.toList = lowercase u.toList) : ReadAlike lexicon t u := by
  refine readAlike_of_tokenize_eq ?_
  rw [tokenize, tokenize, units_of_lowercase_eq h]

/-- Two texts with the same lower-case form are read alike. So a text can be lower-cased beforehand,
and the case of ASCII letters can be changed anywhere. -/
theorem tokenize_ignores_case (lexicon : Lexicon) :
    (∀ t u : String, lowercase t.toList = lowercase u.toList → ReadAlike lexicon t u) ∧
    (∀ t : String, ReadAlike lexicon t (.ofList (lowercase t.toList))) ∧
    ∀ t u : String, t.toList.map Char.toLower = u.toList.map Char.toLower →
      ReadAlike lexicon t u := by
  refine ⟨fun t u h => readAlike_of_lowercase_eq lexicon h, fun t => ?_, fun t u h => ?_⟩
  · refine readAlike_of_lowercase_eq lexicon ?_
    rw [String.toList_ofList, lowercase_lowercase]
  · refine readAlike_of_lowercase_eq lexicon ?_
    rw [← lowercase_map_toLower t.toList, h, lowercase_map_toLower]

/-- A lexicon that knows its words in lower case only. -/
def streetLexicon : Lexicon
  | "the" => some ⟨.determiner, .any⟩
  | "οδος" => some ⟨.noun, .singularCountable⟩
  | "runs" => some ⟨.verb, .singular⟩
  | _ => none

/-- The capital sigma at the end of its word and the capital letters of ASCII change nothing. -/
theorem theStreetRuns_ignores_case :
    lowercase "The οδος runs.".toList = lowercase "THE ΟΔΟΣ RUNS.".toList ∧
    tokenize streetLexicon "THE ΟΔΟΣ RUNS." =
      .ok [⟨"the", .determiner, .any, 1⟩, ⟨"οδος", .noun, .singularCountable, 2⟩,
        ⟨"runs", .verb, .singular, 3⟩] ∧
    analyze streetLexicon "THE ΟΔΟΣ RUNS." = .accepted ∧
    "The οδος runs.".toList.map Char.toLower = "tHE οδος RUNs.".toList.map Char.toLower ∧
    analyze streetLexicon "tHE οδος RUNs." = .accepted := by
  have hlower : lowercase "The οδος runs.".toList = lowercase "THE ΟΔΟΣ RUNS.".toList := by
    decide +kernel
  have hascii : "The οδος runs.".toList.map Char.toLower =
      "tHE οδος RUNs.".toList.map Char.toLower := by
    decide +kernel
  have htokens : tokenize streetLexicon "The οδος runs." =
      .ok [⟨"the", .determiner, .any, 1⟩, ⟨"οδος", .noun, .singularCountable, 2⟩,
        ⟨"runs", .verb, .singular, 3⟩] := by
    have hunits : units "The οδος runs.".toList =
        ["the".toList, "οδος".toList, "runs.".toList] := by
      decide +kernel
    rw [tokenize, hunits]
    rfl
  have hverdict : analyze streetLexicon "The οδος runs." = .accepted := by
    rw [analyze, htokens]
    cbv
  obtain ⟨hsame, -, hletters⟩ := tokenize_ignores_case streetLexicon
  have hcapitals := hsame _ _ hlower
  have hmixed := hletters _ _ hascii
  exact ⟨hlower, hcapitals.tokens.trans htokens, hcapitals.verdict.trans hverdict, hascii,
    hmixed.verdict.trans hverdict⟩

end Concord
