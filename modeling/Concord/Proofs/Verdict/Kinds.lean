import Concord.Proofs.Verdict.Composition

/-!
# The four outcomes

An analysis ends in exactly one of four ways: a word is unknown, nothing but separators was given,
every segment is accepted, or some segments fail (`EndsIn`). That nothing was given is noticed
before the program is read, so a program that is read has a segment, which is counted or fails.

The messages alone tell the outcome. A text about the whole begins with another letter than every
text about a syntax error, so that no syntax error can be mistaken for it (`initial?_message`).

Main statements: `exists_endsIn`, one of the outcomes comes about; `EndsIn.kind_eq`, it is the one
that the messages tell; `analyze_outcome`, both together.
-/

namespace Concord

/-! ## First letters -/

/-- The first letter of a text. -/
def initial? (text : String) : Option Char := text.toList.head?

theorem initial?_ofList (c : Char) (cs : List Char) : initial? (.ofList (c :: cs)) = some c := by
  rw [initial?, String.toList_ofList]
  rfl

theorem initial?_append {text : String} {c : Char} (h : initial? text = some c) (more : String) :
    initial? (text ++ more) = some c := by
  unfold initial? at h ⊢
  rw [String.toList_append, List.head?_append, h]
  rfl

/-- The first letter of the text shown for an error. -/
def SyntaxError.initial : SyntaxError → Char
  | unexpectedToken .. => 'E'
  | unexpectedEnd .. => 'U'
  | missingNounPhrase .. => 'E'
  | invalidNounPhraseStart .. => 'E'
  | determinerAgreement .. => 'A'
  | bareSingularNoun .. => 'G'
  | subjectVerbAgreement .. => 'S'
  | leadingSeparator .. => 'U'
  | expectedSeparator .. => 'E'

-- Every text begins with a constant, to which the words and positions are appended. The constant
-- must not be unfolded in search of one more thing that is appended.
theorem initial?_message (e : SyntaxError) : initial? e.message = some e.initial := by
  cases e
  all_goals
    unfold SyntaxError.message
    repeat with_reducible apply initial?_append
    exact initial?_ofList _ _

theorem initial?_lexicalError (e : LexicalError) :
    initial? ("Lexical Error: " ++ e.message) = some 'L' :=
  initial?_append (initial?_ofList _ _) _

/-! ## Outcomes -/

/-- A way in which an analysis ends. -/
inductive Kind where
  | unreadable
  | noInput
  | accepted
  | rejected
  deriving DecidableEq

/-- The outcome that messages tell, by the first letter of the first one. -/
def Kind.ofMessages (messages : List String) : Kind :=
  match messages.head?.bind initial? with
  | some 'L' => unreadable
  | some 'N' => noInput
  | some 'P' => accepted
  | _ => rejected

/-- The texts that are about a text as a whole, and not about one of its segments. -/
def Summary (message : String) : Prop :=
  message = "No input provided." ∨ message = "Parsing successful." ∨
    ∃ e : LexicalError, message = "Lexical Error: " ++ e.message

/-- How the analysis of a text ends, and what is said about it. -/
inductive EndsIn (lexicon : Lexicon) (text : String) : Kind → Prop
  | unreadable {e : LexicalError} :
      tokenize lexicon text = .error e →
      (analyze lexicon text).messages = ["Lexical Error: " ++ e.message] →
      EndsIn lexicon text .unreadable
  | noInput {ts : List Token} :
      tokenize lexicon text = .ok ts → (∀ t ∈ ts, t.category = .comma) →
      (analyze lexicon text).messages = ["No input provided."] →
      EndsIn lexicon text .noInput
  | accepted {ts : List Token} :
      tokenize lexicon text = .ok ts → (∃ t ∈ ts, t.category ≠ .comma) →
      (∀ g ∈ segments ts, segmentError? g = none) →
      (analyze lexicon text).ok = true →
      (analyze lexicon text).messages = ["Parsing successful."] →
      EndsIn lexicon text .accepted
  | rejected {ts : List Token} :
      tokenize lexicon text = .ok ts → (∃ t ∈ ts, t.category ≠ .comma) →
      (∃ g ∈ segments ts, segmentError? g ≠ none) →
      (analyze lexicon text).messages =
        ((segments ts).filterMap segmentError?).map SyntaxError.message →
      (∀ message ∈ (analyze lexicon text).messages, ¬ Summary message) →
      EndsIn lexicon text .rejected

theorem not_summary_message (e : SyntaxError) : ¬ Summary e.message := by
  have hinitial := initial?_message e
  intro hsummary
  rcases hsummary with h | h | ⟨lexical, h⟩
  · rw [h, show initial? "No input provided." = some 'N' from initial?_ofList _ _] at hinitial
    cases e <;> simp [SyntaxError.initial] at hinitial
  · rw [h, show initial? "Parsing successful." = some 'P' from initial?_ofList _ _] at hinitial
    cases e <;> simp [SyntaxError.initial] at hinitial
  · rw [h, initial?_lexicalError] at hinitial
    cases e <;> simp [SyntaxError.initial] at hinitial

/-- The first of the texts about failing segments tells that there are some. -/
theorem Kind.ofMessages_errors {errors : List SyntaxError} (h : errors ≠ []) :
    ofMessages (errors.map SyntaxError.message) = rejected := by
  obtain ⟨e, es, rfl⟩ := List.exists_cons_of_ne_nil h
  have hfirst : ((e :: es).map SyntaxError.message).head?.bind initial? = some e.initial :=
    initial?_message e
  rw [ofMessages, hfirst]
  cases e <;> rfl

variable {lexicon : Lexicon} {text : String}

theorem analyze_of_separators {ts : List Token} (h : tokenize lexicon text = .ok ts)
    (hts : ts.all Token.isSeparator = true) : analyze lexicon text = .noInput := by
  rw [analyze, h]
  simp only
  rw [parseProgram, if_pos hts]
  rfl

/-- Every analysis ends in one of the four ways. -/
theorem exists_endsIn (lexicon : Lexicon) (text : String) : ∃ kind, EndsIn lexicon text kind := by
  cases h : tokenize lexicon text with
  | error e =>
    have hanalyze : analyze lexicon text = .unreadable e := by rw [analyze, h]
    exact ⟨_, .unreadable h (by rw [hanalyze]; rfl)⟩
  | ok ts =>
    cases hts : ts.all Token.isSeparator with
    | true =>
      have hcommas : ∀ t ∈ ts, t.category = .comma := by
        intro t ht
        exact Token.isSeparator_iff.1 (List.all_eq_true.1 hts t ht)
      exact ⟨_, .noInput h hcommas (by rw [analyze_of_separators h hts]; rfl)⟩
    | false =>
      have hword : ∃ t ∈ ts, t.category ≠ .comma := by
        simpa [Token.isSeparator] using hts
      have hanalyze := analyze_of_tokens h hts
      by_cases hnil : (segments ts).filterMap segmentError? = []
      · have haccepted : analyze lexicon text = .accepted := by
          rw [hanalyze, verdictOf, if_pos hnil]
        have hnone := List.filterMap_eq_nil_iff.1 hnil
        exact ⟨_, .accepted h hword hnone (by rw [haccepted]; rfl) (by rw [haccepted]; rfl)⟩
      · have hmessages : (analyze lexicon text).messages =
            ((segments ts).filterMap segmentError?).map SyntaxError.message := by
          rw [hanalyze, verdictOf, if_neg hnil]
          rfl
        have hsome : ∃ g ∈ segments ts, segmentError? g ≠ none := by
          simpa using hnil
        refine ⟨_, .rejected h hword hsome hmessages ?_⟩
        rw [hmessages, List.forall_mem_map]
        intro e _
        exact not_summary_message e

/-- The messages tell in which way an analysis ends. -/
theorem EndsIn.kind_eq {kind : Kind} (h : EndsIn lexicon text kind) :
    kind = Kind.ofMessages (analyze lexicon text).messages := by
  cases h with
  | unreadable _ hmessages =>
    rw [hmessages, Kind.ofMessages, List.head?_cons, Option.bind_some, initial?_lexicalError]
    rfl
  | noInput _ _ hmessages =>
    rw [hmessages]
    rfl
  | accepted _ _ _ _ hmessages =>
    rw [hmessages]
    rfl
  | rejected _ _ hsome hmessages _ =>
    rw [hmessages, Kind.ofMessages_errors]
    simpa using hsome

theorem EndsIn.messages_ne_nil {kind : Kind} (h : EndsIn lexicon text kind) :
    (analyze lexicon text).messages ≠ [] := by
  cases h with
  | unreadable _ hmessages => simp [hmessages]
  | noInput _ _ hmessages => simp [hmessages]
  | accepted _ _ _ _ hmessages => simp [hmessages]
  | rejected _ _ hsome hmessages _ =>
    rw [hmessages, Ne, List.map_eq_nil_iff]
    simpa using hsome

/-- The messages of a text that is accepted are those of acceptance. -/
theorem Verdict.messages_of_ok {v : Verdict} (h : v.ok = true) :
    v.messages = ["Parsing successful."] := by
  cases v with
  | accepted => rfl
  | _ => simp [ok] at h

/-- Every analysis ends in exactly one of the four ways, and its messages, of which there is always
one, tell in which. Only an accepted text is in order, and it is the only one without errors. -/
theorem analyze_outcome (lexicon : Lexicon) (text : String) :
    (∀ kind, EndsIn lexicon text kind ↔
      kind = Kind.ofMessages (analyze lexicon text).messages) ∧
    (analyze lexicon text).messages ≠ [] ∧
    ((analyze lexicon text).ok = true ↔ EndsIn lexicon text .accepted) ∧
    ((analyze lexicon text).errors = [] ↔ (analyze lexicon text).ok = true) := by
  obtain ⟨kind, hkind⟩ := exists_endsIn lexicon text
  have hne := hkind.messages_ne_nil
  refine ⟨?_, hne, ?_, ?_⟩
  · intro other
    constructor
    · exact EndsIn.kind_eq
    · intro hother
      rwa [hother, ← hkind.kind_eq]
  · constructor
    · intro hok
      have haccepted : kind = .accepted := by
        rw [hkind.kind_eq, Verdict.messages_of_ok hok]
        rfl
      rwa [← haccepted]
    · intro haccepted
      cases haccepted with
      | accepted _ _ _ hok _ => exact hok
  · constructor
    · intro hnil
      cases hok : (analyze lexicon text).ok with
      | true => rfl
      | false => exact absurd hnil (by simpa [Verdict.errors, hok] using hne)
    · intro hok
      rw [Verdict.errors, if_pos hok]

end Concord
