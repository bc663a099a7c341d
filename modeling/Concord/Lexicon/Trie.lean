import Concord.Lexicon.Entry

/-!
# A lexicon in memory

A tree of words that share their beginnings. A `Forest` is a row of trees: each has a letter, the
entry of the word that ends there (if one does), the forest of the words that go on, and the next
tree of the row. Letters increase along every row, so that the words are listed in the order of
their code points and a letter occurs once in a row; `Trie` carries this as a proof.

Words are entered and looked up in lower case. The empty word has no letter to stand under, and its
entry is kept apart. A trie counts its words as they are entered: a word counts when it had no entry
before.

Main statements: `Forest.find?_insert_self` and `Forest.find?_insert_of_ne`, an insertion sets the
entry of one word and changes no other; `Forest.size_insert`, it adds a word exactly where there was
none.
-/

namespace Concord

/-- Words in the order of their letters, sharing their beginnings. -/
inductive Forest where
  | empty
  | branch (letter : Char) (entry : Option Entry) (below next : Forest)

namespace Forest

/-- The forest of one word, in front of `next`. -/
def path (c : Char) (cs : List Char) (e : Entry) (next : Forest) : Forest :=
  match cs with
  | [] => branch c (some e) empty next
  | d :: ds => branch c none (path d ds e empty) next

/-- Sets the entry of the word `c :: cs`. -/
def insert (c : Char) (cs : List Char) (e : Entry) : Forest → Forest
  | empty => path c cs e empty
  | branch letter entry below next =>
    if c = letter then
      match cs with
      | [] => branch letter (some e) below next
      | d :: ds => branch letter entry (insert d ds e below) next
    else if c.toNat < letter.toNat then path c cs e (branch letter entry below next)
    else branch letter entry below (insert c cs e next)

/-- The entry of the word `c :: cs`. -/
def find? (c : Char) (cs : List Char) : Forest → Option Entry
  | empty => none
  | branch letter entry below next =>
    if c = letter then
      match cs with
      | [] => entry
      | d :: ds => find? d ds below
    else find? c cs next

/-- The words with their entries, in the order of their letters. -/
def toList : Forest → List (List Char × Entry)
  | empty => []
  | branch letter entry below next =>
    entry.toList.map (fun e => ([letter], e)) ++
      below.toList.map (fun (w, e) => (letter :: w, e)) ++ next.toList

/-- The number of words. -/
def size : Forest → Nat
  | empty => 0
  | branch _ entry below next => entry.toList.length + below.size + next.size

/-- Whether every letter of the row comes after `c`. -/
def Beyond (c : Char) : Forest → Prop
  | empty => True
  | branch letter _ _ next => c.toNat < letter.toNat ∧ next.Beyond c

/-- Whether the letters increase along every row. -/
def Sorted : Forest → Prop
  | empty => True
  | branch letter _ below next => below.Sorted ∧ next.Sorted ∧ next.Beyond letter

theorem length_toList (f : Forest) : f.toList.length = f.size := by
  induction f with
  | empty => rfl
  | branch letter entry below next ihb ihn => simp [toList, size, ihb, ihn, Nat.add_assoc]

/-! ## The three places of a letter in a row -/

theorem insert_of_lt {c letter : Char} {cs : List Char} {e : Entry} {entry : Option Entry}
    {below next : Forest} (h : c.toNat < letter.toNat) :
    insert c cs e (branch letter entry below next) =
      path c cs e (branch letter entry below next) := by
  have hne : c ≠ letter := fun heq => Nat.lt_irrefl _ (heq ▸ h)
  cases cs <;> simp [insert, hne, h]

theorem insert_of_gt {c letter : Char} {cs : List Char} {e : Entry} {entry : Option Entry}
    {below next : Forest} (h : letter.toNat < c.toNat) :
    insert c cs e (branch letter entry below next) =
      branch letter entry below (insert c cs e next) := by
  have hne : c ≠ letter := fun heq => Nat.lt_irrefl _ (heq ▸ h)
  cases cs <;> simp [insert, hne, Nat.not_lt.2 (Nat.le_of_lt h)]

theorem find?_of_ne {c letter : Char} {cs : List Char} {entry : Option Entry}
    {below next : Forest} (h : c ≠ letter) :
    find? c cs (branch letter entry below next) = find? c cs next := by
  cases cs <;> simp [find?, h]

theorem letter_trichotomy (c letter : Char) :
    c.toNat < letter.toNat ∨ c = letter ∨ letter.toNat < c.toNat := by
  by_cases heq : c = letter
  · exact .inr (.inl heq)
  · have : c.toNat ≠ letter.toNat := fun h => heq (Char.toNat_inj.1 h)
    omega

/-! ## Order -/

theorem Beyond.trans {a b : Char} {f : Forest} (h : f.Beyond b) (hab : a.toNat < b.toNat) :
    f.Beyond a := by
  induction f with
  | empty => trivial
  | branch letter entry below next _ ih => exact ⟨Nat.lt_trans hab h.1, ih h.2⟩

theorem beyond_path {a c : Char} {cs : List Char} {e : Entry} {next : Forest}
    (hac : a.toNat < c.toNat) (h : next.Beyond a) : (path c cs e next).Beyond a := by
  cases cs <;> exact ⟨hac, h⟩

theorem sorted_path {c : Char} {cs : List Char} {e : Entry} {next : Forest} (h : next.Sorted)
    (hc : next.Beyond c) : (path c cs e next).Sorted := by
  induction cs generalizing c next with
  | nil => exact ⟨trivial, h, hc⟩
  | cons d ds ih => exact ⟨ih trivial trivial, h, hc⟩

theorem beyond_insert {a c : Char} {cs : List Char} {e : Entry} {f : Forest}
    (hac : a.toNat < c.toNat) (h : f.Beyond a) : (insert c cs e f).Beyond a := by
  induction f with
  | empty => exact beyond_path hac trivial
  | branch letter entry below next _ ih =>
    rcases letter_trichotomy c letter with hlt | rfl | hgt
    · rw [insert_of_lt hlt]
      exact beyond_path hac h
    · cases cs <;> simpa [insert, Beyond] using h
    · rw [insert_of_gt hgt]
      exact ⟨h.1, ih h.2⟩

/-- Insertion keeps the letters in order. -/
theorem sorted_insert {c : Char} {cs : List Char} {e : Entry} {f : Forest} (h : f.Sorted) :
    (insert c cs e f).Sorted := by
  induction f generalizing c cs with
  | empty => exact sorted_path trivial trivial
  | branch letter entry below next ihb ihn =>
    obtain ⟨hbelow, hnext, hbeyond⟩ := h
    rcases letter_trichotomy c letter with hlt | rfl | hgt
    · rw [insert_of_lt hlt]
      exact sorted_path ⟨hbelow, hnext, hbeyond⟩ ⟨hlt, hbeyond.trans hlt⟩
    · cases cs with
      | nil => simpa [insert] using ⟨hbelow, hnext, hbeyond⟩
      | cons d ds => simpa [insert] using ⟨ihb hbelow, hnext, hbeyond⟩
    · rw [insert_of_gt hgt]
      exact ⟨hbelow, ihn hnext, beyond_insert hgt hbeyond⟩

/-! ## Finding after an insertion -/

theorem find?_eq_none_of_beyond {c : Char} {cs : List Char} {f : Forest} (h : f.Beyond c) :
    find? c cs f = none := by
  induction f with
  | empty => rfl
  | branch letter entry below next _ ih =>
    have hne : c ≠ letter := fun heq => Nat.lt_irrefl _ (heq ▸ h.1)
    rw [find?_of_ne hne]
    exact ih h.2

theorem find?_path_self {c : Char} {cs : List Char} {e : Entry} {next : Forest} :
    find? c cs (path c cs e next) = some e := by
  induction cs generalizing c next with
  | nil => simp [path, find?]
  | cons d ds ih => simp [path, find?, ih]

theorem find?_path_of_ne {c d : Char} {cs ds : List Char} {e : Entry} {next : Forest}
    (hne : d :: ds ≠ c :: cs) (h : next.Beyond c) :
    find? d ds (path c cs e next) = find? d ds next := by
  induction cs generalizing c d ds next with
  | nil =>
    by_cases hd : d = c
    · cases ds with
      | nil => simp [hd] at hne
      | cons a as => simp [path, find?, hd, find?_eq_none_of_beyond h]
    · simp [path, find?, hd]
  | cons a as ih =>
    by_cases hd : d = c
    · subst hd
      cases ds with
      | nil => simp [path, find?, find?_eq_none_of_beyond h]
      | cons b bs =>
        have hne : b :: bs ≠ a :: as := fun heq => hne (by rw [heq])
        rw [path, find?, if_pos rfl, find?_eq_none_of_beyond h]
        exact ih hne trivial
    · simp [path, find?, hd]

/-- An inserted word is found with its new entry. -/
theorem find?_insert_self {c : Char} {cs : List Char} {e : Entry} {f : Forest} :
    find? c cs (insert c cs e f) = some e := by
  induction f generalizing c cs with
  | empty => exact find?_path_self
  | branch letter entry below next ihb ihn =>
    rcases letter_trichotomy c letter with hlt | rfl | hgt
    · rw [insert_of_lt hlt]
      exact find?_path_self
    · cases cs with
      | nil => simp [insert, find?]
      | cons d ds => simp [insert, find?, ihb]
    · have hne : c ≠ letter := fun heq => Nat.lt_irrefl _ (heq ▸ hgt)
      rw [insert_of_gt hgt, find?_of_ne hne]
      exact ihn

/-- An insertion leaves every other word as it was. -/
theorem find?_insert_of_ne {c d : Char} {cs ds : List Char} {e : Entry} {f : Forest}
    (hne : d :: ds ≠ c :: cs) (h : f.Sorted) :
    find? d ds (insert c cs e f) = find? d ds f := by
  induction f generalizing c d cs ds with
  | empty => exact find?_path_of_ne hne trivial
  | branch letter entry below next ihb ihn =>
    obtain ⟨hbelow, hnext, hbeyond⟩ := h
    rcases letter_trichotomy c letter with hlt | rfl | hgt
    · rw [insert_of_lt hlt]
      exact find?_path_of_ne hne ⟨hlt, hbeyond.trans hlt⟩
    · by_cases hd : d = c
      · subst hd
        cases cs with
        | nil => cases ds with
          | nil => simp at hne
          | cons b bs => simp [insert, find?]
        | cons a as => cases ds with
          | nil => simp [insert, find?]
          | cons b bs =>
            have hne : b :: bs ≠ a :: as := fun heq => hne (by rw [heq])
            simp [insert, find?, ihb hne hbelow]
      · cases cs <;> simp [insert, find?_of_ne hd]
    · rw [insert_of_gt hgt]
      by_cases hd : d = letter
      · subst hd
        cases ds <;> simp [find?]
      · rw [find?_of_ne hd, find?_of_ne hd]
        exact ihn hne hnext

/-! ## Counting -/

theorem size_path {c : Char} {cs : List Char} {e : Entry} {next : Forest} :
    (path c cs e next).size = next.size + 1 := by
  induction cs generalizing c next with
  | nil => simp [path, size, Nat.add_comm]
  | cons d ds ih => simp [path, size, ih, Nat.add_comm]

/-- An insertion adds a word exactly where there was no entry. -/
theorem size_insert {c : Char} {cs : List Char} {e : Entry} {f : Forest} (h : f.Sorted) :
    (insert c cs e f).size = if (find? c cs f).isNone then f.size + 1 else f.size := by
  induction f generalizing c cs with
  | empty => exact size_path
  | branch letter entry below next ihb ihn =>
    obtain ⟨hbelow, hnext, hbeyond⟩ := h
    rcases letter_trichotomy c letter with hlt | rfl | hgt
    · have hbeyond' : (branch letter entry below next).Beyond c := ⟨hlt, hbeyond.trans hlt⟩
      rw [insert_of_lt hlt, size_path, find?_eq_none_of_beyond hbeyond']
      rfl
    · cases cs with
      | nil =>
        simp only [insert, find?, if_true, size]
        cases entry
        · simp only [Option.isNone_none, if_true, Option.toList_none, Option.toList_some,
            List.length_cons, List.length_nil]
          omega
        · rfl
      | cons d ds =>
        have hsize := @ihb d ds hbelow
        simp only [insert, find?, if_true, size, hsize]
        split <;> omega
    · have hne : c ≠ letter := fun heq => Nat.lt_irrefl _ (heq ▸ hgt)
      have hsize := @ihn c cs hnext
      rw [insert_of_gt hgt, find?_of_ne hne, size, hsize, size]
      split <;> omega

end Forest

/-- A lexicon in memory. -/
structure Trie where
  /-- The entry of the empty word. -/
  atEmpty : Option Entry
  forest : Forest
  /-- The number of words. -/
  size : Nat
  sorted : forest.Sorted
  counted : size = atEmpty.toList.length + forest.size

namespace Trie

/-- The lexicon without words. -/
def empty : Trie := ⟨none, .empty, 0, trivial, rfl⟩

/-- Sets the entry of a word, as it is written. -/
def insertKey (t : Trie) (key : List Char) (e : Entry) : Trie :=
  match key with
  | [] =>
    { t with
      atEmpty := some e
      size := if t.atEmpty.isNone then t.size + 1 else t.size
      counted := by
        rw [t.counted]
        cases t.atEmpty with
        | none => exact Nat.add_right_comm 0 t.forest.size 1
        | some _ => rfl }
  | c :: cs =>
    { t with
      forest := t.forest.insert c cs e
      size := if (t.forest.find? c cs).isNone then t.size + 1 else t.size
      sorted := Forest.sorted_insert t.sorted
      counted := by
        rw [Forest.size_insert t.sorted, t.counted]
        split <;> omega }

/-- The entry of a word, as it is written. -/
def findKey? (t : Trie) (key : List Char) : Option Entry :=
  match key with
  | [] => t.atEmpty
  | c :: cs => t.forest.find? c cs

/-- Sets the entry of a word, in lower case. A later entry replaces an earlier one. -/
def insert (t : Trie) (word : String) (e : Entry) : Trie :=
  t.insertKey (Text.lowercase word.toList) e

/-- The entry of a word, whatever its case. -/
def get? (t : Trie) (word : String) : Option Entry := t.findKey? (Text.lowercase word.toList)

/-- Whether a word has an entry. -/
def contains (t : Trie) (word : String) : Bool := (t.get? word).isSome

/-- The words with their entries, in the order of their code points. -/
def toList (t : Trie) : List (String × Entry) :=
  t.atEmpty.toList.map (fun e => ("", e)) ++
    t.forest.toList.map (fun (w, e) => (String.ofList w, e))

/-- Whether there is no word. -/
def isEmpty (t : Trie) : Bool := t.size == 0

/-- Sets the entries of some words, in order. -/
def insertAll (t : Trie) (entries : List (String × Entry)) : Trie :=
  entries.foldl (fun t (w, e) => t.insert w e) t

/-- The lexicon of some entries, a later one before an earlier one for the same word. -/
def ofList (entries : List (String × Entry)) : Trie := empty.insertAll entries

/-- A trie as a source of entries. -/
def lexicon (t : Trie) : Lexicon := t.get?

theorem length_toList (t : Trie) : t.toList.length = t.size := by
  simp [toList, t.counted, Forest.length_toList]

theorem findKey?_insertKey_self (t : Trie) (key : List Char) (e : Entry) :
    (t.insertKey key e).findKey? key = some e := by
  cases key with
  | nil => rfl
  | cons c cs => exact Forest.find?_insert_self

theorem findKey?_insertKey_of_ne (t : Trie) {key other : List Char} (e : Entry)
    (hne : other ≠ key) : (t.insertKey key e).findKey? other = t.findKey? other := by
  cases key with
  | nil => cases other with
    | nil => exact absurd rfl hne
    | cons d ds => rfl
  | cons c cs => cases other with
    | nil => rfl
    | cons d ds => exact Forest.find?_insert_of_ne hne t.sorted

end Trie

end Concord
