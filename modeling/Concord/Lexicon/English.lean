import Concord.Lexicon.Trie

/-!
# The English lexicon

The vocabulary that is used unless a lexicon file replaces it: the words of a small English, each
with one category and one number.
-/

namespace Concord.English

/-- The words, grouped by their entries. -/
def groups : List (Entry × List String) :=
  [(⟨.determiner, .any⟩, ["the"]),
    (⟨.determiner, .singular⟩, ["a", "an", "this", "that"]),
    (⟨.determiner, .plural⟩, ["these", "those"]),
    (⟨.pronoun, .plural⟩, ["i", "you", "we", "they"]),
    (⟨.pronoun, .singular⟩, ["he", "she", "it"]),
    (⟨.noun, .uncountable⟩, ["time", "water", "money", "childhood", "food"]),
    (⟨.noun, .singularCountable⟩,
      ["year", "day", "man", "woman", "child", "world", "school", "state", "student", "country",
        "problem", "hand", "part", "place", "case", "company", "system", "program", "question",
        "number", "night", "home", "room", "fact", "car", "house", "friend", "father", "mother",
        "boy", "girl", "apple", "book", "city", "job", "story", "door", "table", "library", "park",
        "dog", "cat", "teacher", "ball"]),
    (⟨.noun, .plural⟩,
      ["people", "men", "women", "children", "students", "cars", "houses", "friends", "boys",
        "girls", "apples", "books", "cities", "jobs", "stories", "libraries", "parks", "dogs",
        "cats", "teachers"]),
    (⟨.noun, .collective⟩, ["family", "group"]),
    (⟨.verb, .plural⟩,
      ["work", "am", "are", "have", "do", "read", "drink", "go", "say", "get", "make", "know",
        "think", "take", "see", "come", "want", "use", "find", "give", "tell", "call", "try", "ask",
        "need", "feel", "become", "leave", "put", "mean", "keep", "let", "begin", "seem", "help",
        "talk", "turn", "start", "show", "hear", "play", "run", "move", "like", "live", "believe",
        "hold", "bring", "happen", "write", "provide", "sit", "stand", "lose", "pay", "meet",
        "include", "continue", "learn", "change", "understand", "watch", "stop", "create", "eat"]),
    (⟨.verb, .singular⟩,
      ["is", "has", "does", "reads", "drinks", "goes", "says", "gets", "makes", "knows", "thinks",
        "takes", "sees", "comes", "wants", "uses", "finds", "gives", "tells", "works", "calls",
        "tries", "asks", "needs", "feels", "becomes", "leaves", "puts", "means", "keeps", "lets",
        "begins", "seems", "helps", "talks", "turns", "starts", "shows", "hears", "plays", "runs",
        "moves", "likes", "lives", "believes", "holds", "brings", "happens", "writes", "provides",
        "sits", "stands", "loses", "pays", "meets", "includes", "continues", "learns", "changes",
        "understands", "watches", "stops", "creates", "eats"]),
    (⟨.auxiliary, .any⟩, ["can", "may", "must"]),
    (⟨.adjective, .any⟩,
      ["other", "new", "good", "high", "old", "great", "big", "small", "large", "young",
        "different", "long", "little", "important", "bad", "right", "early", "able", "happy", "sad",
        "black", "white", "real", "best", "public", "sure", "low", "local", "late", "human",
        "strong", "weak", "beautiful", "ugly", "easy", "difficult", "hot", "cold", "fast", "slow",
        "busy", "free", "clean", "dirty", "full", "empty"]),
    (⟨.preposition, .any⟩, ["in", "on", "under", "with", "near", "from", "to", "at", "for"])]

/-- The words with their entries. -/
def entries : List (String × Entry) :=
  groups.flatMap fun (e, words) => words.map fun w => (w, e)

/-- The English lexicon in memory. -/
def trie : Trie := .ofList entries

/-- A copy of the English lexicon, which other words can be added to: its words, entered again in
the order in which they are listed. -/
def copy : Trie := .ofList trie.toList

end Concord.English
