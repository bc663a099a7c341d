import Concord.Proofs.Grammar.EarliestError
import Concord.Proofs.Token.Reprinting

/-!
# What messages tell

The texts shown for a verdict have the words of the input in them, and a word may hold quotes,
brackets, stops and digits. But it holds no blank. So a text is its fields with single spaces
between them (`Remark.fields`), each constant or with one word, code or number in it, and is cut
into these fields again. The number of fields and the constants tell what kind of text it is, and
each of the other fields tells its value.

Main statements: `Remark.eq_of_message_eq`, two remarks without blanks in their words have different
texts; `solid_of_mem_remarks`, there are no blanks in the words of the remarks about a text;
`message_determines`, so the messages about a text tell the verdict.
-/

namespace Concord

open Text Grammar

/-! ## Values in messages -/

/-- No two categories have the same code, which is a name of one category only. -/
theorem Category.code_injective : Function.Injective code := by
  intro c c' h
  have hfound := congrArg ofCode? h
  rwa [ofCode?_code, ofCode?_code, Option.some.injEq] at hfound

theorem Number.code_injective : Function.Injective code := by
  intro n n' h
  have hfound := congrArg ofCode? h
  rwa [ofCode?_code, ofCode?_code, Option.some.injEq] at hfound

/-- A number is the value of its digits. -/
theorem ofDigitChars_repr (n : Nat) : Nat.ofDigitChars 10 n.repr.toList 0 = n := by
  rw [Nat.repr_eq_ofList_toDigits, String.toList_ofList, Nat.ofDigitChars_ten_toDigits]

theorem repr_injective : Function.Injective Nat.repr := by
  intro m n h
  rw [← ofDigitChars_repr m, h, ofDigitChars_repr]

/-! ## Remarks -/

/-- The words of the input that an error names. -/
def SyntaxError.words : SyntaxError → List String
  | unexpectedToken _ _ word _ => [word]
  | unexpectedEnd .. => []
  | missingNounPhrase _ => []
  | invalidNounPhraseStart _ word _ => [word]
  | determinerAgreement determiner _ noun _ _ => [determiner, noun]
  | bareSingularNoun noun _ => [noun]
  | subjectVerbAgreement _ verb _ _ => [verb]
  | leadingSeparator _ => []
  | expectedSeparator word _ => [word]

/-- The parts of the text shown for an error. -/
def SyntaxError.fields : SyntaxError → List String
  | unexpectedToken expected found word p =>
    ["Expected", expected.code ++ ",", "found", found.code, "('" ++ word ++ "')", "at", "position",
      toString p ++ "."]
  | unexpectedEnd expected p =>
    ["Unexpected", "end", "of", "input", "at", "position", toString p ++ ".", "Expected",
      "category:", expected.code ++ "."]
  | missingNounPhrase p =>
    ["Expected", "NP,", "found", "end", "of", "sentence", "at", "position", toString p ++ "."]
  | invalidNounPhraseStart found word p =>
    ["Expected", "DET,", "PRON", "or", "N", "to", "start", "NP,", "found", found.code,
      "('" ++ word ++ "')", "at", "position", toString p ++ "."]
  | determinerAgreement determiner determinerNumber noun nounNumber p =>
    ["Agreement", "Error:", "Determiner", "'" ++ determiner ++ "'",
      "(" ++ determinerNumber.code ++ ")", "mismatch", "with", "noun", "'" ++ noun ++ "'",
      "(" ++ nounNumber.code ++ ")", "at", "position", toString p ++ "."]
  | bareSingularNoun noun p =>
    ["Grammar", "Error:", "Countable", "singular", "noun", "'" ++ noun ++ "'", "cannot", "appear",
      "without", "a", "determiner", "(position", toString p ++ ")."]
  | subjectVerbAgreement subject verb verbNumber p =>
    ["Subject–Verb", "Agreement", "Error:", "Subject", "is", subject.code ++ ",", "but", "verb",
      "'" ++ verb ++ "'", "is", verbNumber.code, "(position", toString p ++ ")."]
  | leadingSeparator p =>
    ["Unexpected", "comma", "found", "at", "start", "of", "sentence", "(position",
      toString p ++ ")."]
  | expectedSeparator word p =>
    ["Expected", "','", "or", "End", "of", "Input,", "found", "'" ++ word ++ "'", "at", "position",
      toString p ++ "."]

theorem SyntaxError.message_eq (e : SyntaxError) : e.message = " ".intercalate e.fields := by
  apply String.toList_injective
  cases e
  -- `message` is unfolded and not simplified, for its equations would take the constants apart.
  all_goals
    unfold message fields
    simp only [toString]
    simp

/-- The first field and the number of fields tell the kind of an error, and the other fields tell
its values. -/
theorem SyntaxError.fields_injective : Function.Injective fields := by
  intro e e' h
  -- The pairs of different kinds are excluded here, and the equations of the values are left.
  cases e <;> cases e' <;> simp [fields, Category.code_injective.eq_iff,
    Number.code_injective.eq_iff, repr_injective.eq_iff] at h
  all_goals simp [h]

/-- What one text shown for a verdict is about. -/
inductive Remark where
  | lexical (error : LexicalError)
  | syntactic (error : SyntaxError)
  | noInput
  | accepted
  deriving DecidableEq

namespace Remark

/-- The text shown for a remark. -/
def message : Remark → String
  | lexical error => "Lexical Error: " ++ error.message
  | syntactic error => error.message
  | noInput => "No input provided."
  | accepted => "Parsing successful."

/-- The words of the input that a remark names. -/
def words : Remark → List String
  | lexical (.unknownWord word _) => [word]
  | syntactic error => error.words
  | noInput => []
  | accepted => []

/-- The parts of the text shown for a remark. -/
def fields : Remark → List String
  | lexical (.unknownWord word p) =>
    ["Lexical", "Error:", "Unknown", "word", "'" ++ word ++ "'", "at", "position", toString p]
  | syntactic error => error.fields
  | noInput => ["No", "input", "provided."]
  | accepted => ["Parsing", "successful."]

theorem message_eq (r : Remark) : r.message = " ".intercalate r.fields := by
  cases r with
  | lexical e =>
    obtain ⟨word, p⟩ := e
    apply String.toList_injective
    unfold message fields LexicalError.message
    simp only [toString]
    simp
  | syntactic e => exact e.message_eq
  | noInput => rfl
  | accepted => rfl

/-- The first field tells the kind of a remark. -/
theorem fields_injective : Function.Injective fields := by
  intro r r' h
  rcases r with ⟨word, p⟩ | e | _ | _ <;> rcases r' with ⟨word', p'⟩ | e' | _ | _
  case lexical.lexical => simpa [fields, repr_injective.eq_iff] using h
  case syntactic.syntactic => rw [SyntaxError.fields_injective h]
  case noInput.noInput | accepted.accepted => rfl
  case lexical.syntactic | noInput.syntactic | accepted.syntactic =>
    cases e' <;> simp [fields, SyntaxError.fields] at h
  case syntactic.lexical | syntactic.noInput | syntactic.accepted =>
    cases e <;> simp [fields, SyntaxError.fields] at h
  all_goals simp [fields] at h

end Remark

/-! ## Texts without blanks -/

/-- A text without blanks. -/
def Solid (s : String) : Prop := ∀ c ∈ s.toList, isBlank c = false

instance (s : String) : Decidable (Solid s) :=
  decidable_of_iff (s.toList.all (!isBlank ·) = true) (by simp [Solid])

theorem solid_append {s s' : String} : Solid (s ++ s') ↔ Solid s ∧ Solid s' := by
  rw [Solid, String.toList_append, List.forall_mem_append]
  rfl

theorem Category.solid_code (c : Category) : Solid c.code := by cases c <;> decide

theorem Number.solid_code (n : Number) : Solid n.code := by cases n <;> decide

theorem isBlank_of_isDigit {c : Char} (h : c.isDigit = true) : isBlank c = false := by
  have hc : 48 ≤ c.toNat ∧ c.toNat ≤ 57 := by
    simpa [Char.isDigit, UInt32.le_iff_toNat_le] using h
  simp only [isBlank, blankRanges, inRanges]
  simp
  omega

theorem solid_repr (n : Nat) : Solid n.repr := by
  intro c hc
  rw [Nat.repr_eq_ofList_toDigits, String.toList_ofList] at hc
  exact isBlank_of_isDigit (Nat.isDigit_of_mem_toDigits (by decide) (by decide) hc)

theorem SyntaxError.solid_fields {e : SyntaxError} (h : ∀ w ∈ e.words, Solid w) :
    ∀ f ∈ e.fields, Solid f := by
  cases e <;> simp_all +decide [words, fields, solid_append, Category.solid_code,
    Number.solid_code, solid_repr]

namespace Remark

variable {r r' : Remark}

/-- No part of the text shown for a remark holds a blank, if no word of the remark does. -/
theorem solid_fields (h : ∀ w ∈ r.words, Solid w) : ∀ f ∈ r.fields, Solid f := by
  cases r with
  | lexical e =>
    obtain ⟨word, p⟩ := e
    have hword : Solid word := h word (List.mem_singleton_self word)
    simp +decide [fields, solid_append, hword, solid_repr]
  | syntactic e => exact SyntaxError.solid_fields h
  | noInput => decide
  | accepted => decide

/-- The text shown for a remark is cut into its parts at its spaces. -/
theorem pieces_message (h : ∀ w ∈ r.words, Solid w) :
    pieces (· == ' ') r.message.toList = r.fields.map String.toList := by
  have hspace : ∀ f ∈ r.fields.map String.toList, ' ' ∉ f := by
    intro f hf hmem
    obtain ⟨field, hfield, rfl⟩ := List.mem_map.1 hf
    exact absurd (solid_fields h field hfield ' ' hmem) (by decide)
  have hne : r.fields ≠ [] := by
    rcases r with ⟨word, p⟩ | e | _ | _
    case syntactic => cases e <;> simp [fields, SyntaxError.fields]
    all_goals simp [fields]
  rw [r.message_eq, String.toList_intercalate]
  exact pieces_intercalate (by simpa using hne) hspace

/-- Remarks with the same text are the same, if no word of theirs holds a blank. -/
theorem eq_of_message_eq (h : ∀ w ∈ r.words, Solid w) (h' : ∀ w ∈ r'.words, Solid w)
    (hmessage : r.message = r'.message) : r = r' := by
  have hfields : r.fields.map String.toList = r'.fields.map String.toList := by
    rw [← pieces_message h, hmessage, pieces_message h']
  apply fields_injective
  exact List.map_injective_iff.2 (fun _ _ => String.toList_injective) hfields

end Remark

/-! ## Remarks about a text -/

namespace Verdict

/-- What the texts shown for a verdict are about. -/
def remarks : Verdict → List Remark
  | unreadable error => [.lexical error]
  | noInput => [.noInput]
  | accepted => [.accepted]
  | rejected errors => errors.map .syntactic

theorem messages_eq (v : Verdict) : v.messages = v.remarks.map Remark.message := by
  cases v with
  | rejected errors =>
    rw [remarks, List.map_map]
    rfl
  | _ => rfl

theorem remarks_injective : Function.Injective remarks := by
  intro v v' h
  have hsyntactic : Function.Injective Remark.syntactic := fun _ _ => Remark.syntactic.inj
  cases v <;> cases v'
  case rejected.rejected => rw [List.map_injective_iff.2 hsyntactic h]
  case unreadable.rejected | noInput.rejected | accepted.rejected =>
    simp [remarks, eq_comm, List.map_eq_singleton_iff] at h
  all_goals simp_all [remarks, List.map_eq_singleton_iff]

/-- Verdicts with the same texts are the same, if no word that they name holds a blank. -/
theorem eq_of_messages_eq {v v' : Verdict} (h : ∀ r ∈ v.remarks, ∀ w ∈ r.words, Solid w)
    (h' : ∀ r ∈ v'.remarks, ∀ w ∈ r.words, Solid w) (hmessages : v.messages = v'.messages) :
    v = v' := by
  rw [messages_eq, messages_eq] at hmessages
  apply remarks_injective
  generalize v.remarks = rs at *
  generalize v'.remarks = rs' at *
  induction rs generalizing rs' with
  | nil => exact (List.map_eq_nil_iff.1 hmessages.symm).symm
  | cons r rs ih =>
    have hne : rs' ≠ [] := by
      rintro rfl
      simp at hmessages
    obtain ⟨r', rs', rfl⟩ := List.exists_cons_of_ne_nil hne
    obtain ⟨hfirst, hrest⟩ := List.cons.inj hmessages
    obtain ⟨hr, hrs⟩ := List.forall_mem_cons.1 h
    obtain ⟨hr', hrs'⟩ := List.forall_mem_cons.1 h'
    rw [Remark.eq_of_message_eq hr hr' hfirst, ih hrs rs' hrs' hrest]

end Verdict

namespace Grammar

variable {finish : Nat} {read : List Token} {next : Option Token} {e : SyntaxError}

/-- An error names words of the tokens around the break. -/
theorem Diagnosis.words_subset (h : Diagnosis finish read next e) :
    e.words ⊆ (read ++ next.toList).map Token.word := by
  cases h <;> simp [SyntaxError.words]

theorem SegmentBreak.words_subset (h : SegmentBreak finish read next e) :
    e.words ⊆ (read ++ next.toList).map Token.word := by
  cases h with
  | leading => exact List.nil_subset _
  | sentence _ hsentence => exact hsentence.diagnosis.words_subset
  | overlong => simp [SyntaxError.words]

end Grammar

/-- The errors of a program name words of its tokens. -/
theorem words_subset_of_mem_errors {ts : List Token} {e : SyntaxError}
    (h : e ∈ (parseProgram ts).errors) : e.words ⊆ ts.map Token.word := by
  rw [parseProgram_errors (List.ne_nil_of_mem h), List.mem_filterMap] at h
  obtain ⟨g, hg, he⟩ := h
  obtain ⟨read, left, rfl, hbreak⟩ := exists_segmentBreak (segmentError?_eq_some.1 he)
  have hnext : read ++ left.head?.toList ⊆ read ++ left := by
    cases left with
    | nil => exact List.Subset.refl _
    | cons t us => simp
  have hsegment : read ++ left ⊆ ts := by
    intro t ht
    rw [← flatten_segments ts]
    exact List.mem_flatten_of_mem hg ht
  exact List.Subset.trans hbreak.words_subset
    (List.map_subset _ (List.Subset.trans hnext hsegment))

theorem Report.remarks_verdict (r : Report) : r.verdict.remarks = [.noInput] ∨
    r.verdict.remarks = [.accepted] ∨ r.verdict.remarks = r.errors.map .syntactic := by
  unfold verdict
  split
  · exact Or.inr (Or.inr rfl)
  · split
    · exact Or.inl rfl
    · exact Or.inr (Or.inl rfl)

/-- No word of a remark about a text holds a blank. -/
theorem solid_of_mem_remarks {lexicon : Lexicon} {text : String} :
    ∀ r ∈ (analyze lexicon text).remarks, ∀ w ∈ r.words, Solid w := by
  unfold analyze
  cases htokens : tokenize lexicon text with
  | error e =>
    obtain ⟨word, position⟩ := e
    have hword : Solid word := (wellCut_of_tokenize_error htokens).not_blank
    simpa [Verdict.remarks, Remark.words] using hword
  | ok ts =>
    simp only
    rcases Report.remarks_verdict (parseProgram ts) with h | h | h <;> rw [h]
    · simp [Remark.words]
    · simp [Remark.words]
    · intro r hr w hw
      obtain ⟨e, he, rfl⟩ := List.mem_map.1 hr
      obtain ⟨t, ht, rfl⟩ := List.mem_map.1 (words_subset_of_mem_errors he hw)
      exact (lasts_of_tokenize htokens t ht).wellCut.not_blank

/-- Remarks with different kinds, words, codes or positions have different texts, if their words
hold no blanks. So the messages about a text, whichever it is, tell the verdict with all its errors.
-/
theorem message_determines :
    (∀ r r' : Remark, (∀ w ∈ r.words, Solid w) → (∀ w ∈ r'.words, Solid w) →
      r.message = r'.message → r = r') ∧
    ∀ (lexicon lexicon' : Lexicon) (text text' : String),
      (analyze lexicon text).messages = (analyze lexicon' text').messages →
      analyze lexicon text = analyze lexicon' text' :=
  ⟨fun _ _ => Remark.eq_of_message_eq,
    fun _ _ _ _ => Verdict.eq_of_messages_eq solid_of_mem_remarks solid_of_mem_remarks⟩

/-- A lexicon of one word, which is written like the end of a message. -/
def quoteLexicon : Lexicon
  | "dog')" => some ⟨.noun, .plural⟩
  | _ => none

/-- The text of an error is not that of another error, however the words are chosen. Two texts of
which only the blanks and the case are different have the same message and the same error. -/
theorem quotes_determined :
    (SyntaxError.unexpectedToken .verb .noun "dog')" 2).message ≠
      (SyntaxError.invalidNounPhraseStart .noun "dog')" 2).message ∧
    (analyze quoteLexicon "dog')").messages = (analyze quoteLexicon "  DOG')!").messages ∧
    analyze quoteLexicon "dog')" = analyze quoteLexicon "  DOG')!" := by
  obtain ⟨hremarks, htexts⟩ := message_determines
  have hplain : tokenize quoteLexicon "dog')" = .ok [⟨"dog')", .noun, .plural, 1⟩] := by
    decide +kernel
  have hcapital : tokenize quoteLexicon "  DOG')!" = .ok [⟨"dog')", .noun, .plural, 1⟩] := by
    decide +kernel
  have hmessages :
      (analyze quoteLexicon "dog')").messages = (analyze quoteLexicon "  DOG')!").messages := by
    rw [analyze, analyze, hplain, hcapital]
  refine ⟨fun hmessage => ?_, hmessages, htexts _ _ _ _ hmessages⟩
  have heq := hremarks (.syntactic (.unexpectedToken .verb .noun "dog')" 2))
    (.syntactic (.invalidNounPhraseStart .noun "dog')" 2)) (by decide) (by decide) hmessage
  simp at heq

end Concord
