import Concord.Proofs.Token.LetterCase
import Concord.Proofs.Token.Vocabulary

/-!
# Extending a lexicon

Words that are added to a lexicon concern only the texts that use them. Any other text keeps its
tokens, or its unknown word, and the verdict about it; for the added words change no answer for
another word, and a text depends on a lexicon only through the answers for the words it looks up.

Main statements: `get?_append_of_ne`, a listing changes the answers for its own words alone;
`analyze_extended`, texts without these words are read as before, and so they are by any two
lexicons that answer alike for the words that are looked up.
-/

namespace Concord

open Text Listing

/-- A listing changes the answers for its own words alone. -/
theorem get?_append_of_ne {content : Bytes} {word : String}
    (h : ∀ line ∈ FileNode.linesOf content, ∀ x, Says line (.ok (some x)) →
      lowered x.1 ≠ lowered word) (t : Trie) :
    (t.append content).trie.get? word = t.get? word := by
  rw [Trie.append, trie_appendLines]
  refine get?_insertAll_of_ne (fun x hx => ?_) t
  obtain ⟨line, hline, hsays⟩ := exists_says_of_mem_entered hx
  exact h line hline x hsays

/-- The verdict follows from the tokens. -/
theorem analyze_congr {lexicon lexicon' : Lexicon} {text : String}
    (h : tokenize lexicon' text = tokenize lexicon text) :
    analyze lexicon' text = analyze lexicon text := by
  rw [analyze, analyze, h]

/-- Loading a listing changes neither the tokens of a text nor the verdict about it, unless the text
looks up the word of one of the entries. So it is with any two lexicons that answer alike for the
words of the text, up to the first that the one does not know. -/
theorem analyze_extended :
    (∀ (t : Trie) (content : Bytes) (text : String),
      (∀ line ∈ FileNode.linesOf content, ∀ word e, Says line (.ok (some (word, e))) →
        lowered word ∉ vocabulary text) →
      (Checker.mk (t.append content).trie).tokens text = (Checker.mk t).tokens text ∧
      (Checker.mk (t.append content).trie).analyze text = (Checker.mk t).analyze text) ∧
    ∀ (lexicon lexicon' : Lexicon) (text : String),
      (∀ word ∈ lookedUp lexicon (vocabulary text), lexicon' word = lexicon word) →
      tokenize lexicon' text = tokenize lexicon text ∧
      analyze lexicon' text = analyze lexicon text := by
  constructor
  · intro t content text h
    have htokens : tokenize (t.append content).trie.lexicon text = tokenize t.lexicon text := by
      refine tokenize_congr fun word hword => ?_
      have hmem := lookedUp_subset _ _ hword
      obtain ⟨-, hlower⟩ := findable_of_mem_vocabulary hmem
      have hself : lowered word = word := by rw [lowered, hlower, String.ofList_toList]
      refine get?_append_of_ne (fun line hline x hsays heq => ?_) t
      rw [hself] at heq
      exact h line hline x.1 x.2 hsays (heq ▸ hmem)
    exact ⟨htokens, analyze_congr htokens⟩
  · intro lexicon lexicon' text h
    have htokens := tokenize_congr h
    exact ⟨htokens, analyze_congr htokens⟩

/-- A listing of one animal. -/
def zebraListing : Bytes := encode "# animals\nZebra|N|SGC\n"

/-- A trie of two words. -/
def heRuns : Trie := .ofList [("he", ⟨.pronoun, .singular⟩), ("runs", ⟨.verb, .singular⟩)]

/-- A text without the animal is accepted as before. Two lexicons that both know the first word and
not the second find the same unknown word, although only one of them knows the third. -/
theorem heRuns_extended :
    (∀ line ∈ FileNode.linesOf zebraListing, ∀ word e, Says line (.ok (some (word, e))) →
      lowered word ∉ vocabulary "He runs.") ∧
    (Checker.mk (heRuns.append zebraListing).trie).analyze "He runs." = .accepted ∧
    lookedUp roadLexicon (vocabulary "Οδος dog, he") = ["οδος", "dog"] ∧
    tokenize streetLexicon "Οδος dog, he" = .error (.unknownWord "dog" 2) := by
  have hlines : FileNode.linesOf zebraListing = [.ok "# animals", .ok "Zebra|N|SGC"] := by
    decide +kernel
  have hcomment : interpret (.ok "# animals") = .ok none := by decide +kernel
  have hzebra : interpret (.ok "Zebra|N|SGC") =
      .ok (some ("Zebra", ⟨.noun, .singularCountable⟩)) := by
    decide +kernel
  have hother : lowered "Zebra" ∉ vocabulary "He runs." := by decide +kernel
  have hwords : ∀ line ∈ FileNode.linesOf zebraListing, ∀ word e,
      Says line (.ok (some (word, e))) → lowered word ∉ vocabulary "He runs." := by
    intro line hline word e hsays
    have hmeaning := hsays.interpret_eq
    rw [hlines] at hline
    simp only [List.mem_cons, List.not_mem_nil, or_false] at hline
    rcases hline with rfl | rfl
    · simp [hcomment] at hmeaning
    · rw [hzebra] at hmeaning
      simp only [Except.ok.injEq, Option.some.injEq, Prod.mk.injEq] at hmeaning
      rw [← hmeaning.1]
      exact hother
  have htokens : tokenize heRuns.lexicon "He runs." =
      .ok [⟨"he", .pronoun, .singular, 1⟩, ⟨"runs", .verb, .singular, 2⟩] := by
    decide +kernel
  have haccepted : (Checker.mk heRuns).analyze "He runs." = .accepted := by
    rw [Checker.analyze, Checker.lexicon, analyze, htokens]
    cbv
  have hasked : lookedUp roadLexicon (vocabulary "Οδος dog, he") = ["οδος", "dog"] := by
    decide +kernel
  have halike : ∀ word ∈ lookedUp roadLexicon (vocabulary "Οδος dog, he"),
      streetLexicon word = roadLexicon word := by
    rw [hasked]
    decide
  have hunknown : tokenize roadLexicon "Οδος dog, he" = .error (.unknownWord "dog" 2) := by
    decide +kernel
  exact ⟨hwords, (analyze_extended.1 heRuns zebraListing "He runs." hwords).2.trans haccepted,
    hasked, (analyze_extended.2 roadLexicon streetLexicon _ halike).1.trans hunknown⟩

end Concord
