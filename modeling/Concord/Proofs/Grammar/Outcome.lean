import Concord.Grammar.Phrase

/-!
# How a step ends

A step succeeds with a value or fails with an error, and either way leaves some tokens unread.
`Reads` and `Fails` say which, and each way of composing steps comes with the law that tells what it
reads and where it fails. `Same` compares steps that begin at different places.
-/

namespace Concord.Step

variable {ts us vs : List Token} {α β : Type}

/-- The step succeeds with `a` and leaves `rest` unread. -/
def Reads (s : Step ts α) (a : α) (rest : List Token) : Prop :=
  s.outcome = .ok a ∧ s.rest = rest

/-- The step fails with `e` and leaves `rest` unread. -/
def Fails (s : Step ts α) (e : SyntaxError) (rest : List Token) : Prop :=
  s.outcome = .error e ∧ s.rest = rest

theorem reads_or_fails (s : Step ts α) :
    (∃ a rest, s.Reads a rest) ∨ ∃ e rest, s.Fails e rest := by
  cases h : s.outcome with
  | ok a => exact Or.inl ⟨a, s.rest, h, rfl⟩
  | error e => exact Or.inr ⟨e, s.rest, h, rfl⟩

theorem Reads.not_fails {s : Step ts α} {a : α} {e : SyntaxError} {rest rest' : List Token}
    (h : s.Reads a rest) : ¬ s.Fails e rest' := by
  intro h'
  have := h.1.symm.trans h'.1
  simp at this

theorem Reads.eq {s : Step ts α} {a a' : α} {rest rest' : List Token}
    (h : s.Reads a rest) (h' : s.Reads a' rest') : a = a' ∧ rest = rest' :=
  ⟨Except.ok.inj (h.1.symm.trans h'.1), h.2.symm.trans h'.2⟩

theorem Reads.suffix {s : Step ts α} {a : α} {rest : List Token} (h : s.Reads a rest) :
    rest <:+ ts := h.2 ▸ s.suffix

@[simp] theorem done_reads {a b : α} {rest : List Token} :
    (done a : Step ts α).Reads b rest ↔ a = b ∧ ts = rest := by
  simp [Reads, done]

@[simp] theorem done_fails {a : α} {e : SyntaxError} {rest : List Token} :
    ¬ (done a : Step ts α).Fails e rest := by
  simp [Fails, done]

@[simp] theorem fail_reads {e : SyntaxError} {a : α} {rest : List Token} :
    ¬ (fail e : Step ts α).Reads a rest := by
  simp [Reads, fail]

@[simp] theorem fail_fails {e e' : SyntaxError} {rest : List Token} :
    (fail e : Step ts α).Fails e' rest ↔ e = e' ∧ ts = rest := by
  simp [Fails, fail]

@[simp] theorem within_reads {s : Step us α} {h : us <:+ ts} {a : α} {rest : List Token} :
    (s.within h).Reads a rest ↔ s.Reads a rest := Iff.rfl

@[simp] theorem within_fails {s : Step us α} {h : us <:+ ts} {e : SyntaxError}
    {rest : List Token} : (s.within h).Fails e rest ↔ s.Fails e rest := Iff.rfl

@[simp] theorem map_reads {s : Step ts α} {f : α → β} {b : β} {rest : List Token} :
    (s.map f).Reads b rest ↔ ∃ a, s.Reads a rest ∧ f a = b := by
  cases h : s.outcome with
  | error e => simp [Reads, map, h, Except.map]
  | ok a =>
    simp only [Reads, map, h, Except.map, Except.ok.injEq]
    refine ⟨?_, ?_⟩
    · intro h
      exact ⟨a, ⟨rfl, h.2⟩, h.1⟩
    · intro h
      obtain ⟨a', ⟨ha, hrest⟩, hb⟩ := h
      exact ⟨ha ▸ hb, hrest⟩

@[simp] theorem map_fails {s : Step ts α} {f : α → β} {e : SyntaxError} {rest : List Token} :
    (s.map f).Fails e rest ↔ s.Fails e rest := by
  cases h : s.outcome <;> simp [Fails, map, h, Except.map]

@[simp] theorem andThen_reads {s : Step ts α}
    {next : α → (rest : List Token) → rest <:+ ts → Step rest β} {b : β} {rest : List Token} :
    (s.andThen next).Reads b rest ↔
      ∃ a mid, ∃ h : mid <:+ ts, s.Reads a mid ∧ (next a mid h).Reads b rest := by
  obtain ⟨outcome, mid, h⟩ := s
  cases outcome with
  | error e => simp [andThen, Reads]
  | ok a =>
    refine ⟨?_, ?_⟩
    · intro hr
      exact ⟨a, mid, h, ⟨rfl, rfl⟩, hr⟩
    · intro hnext
      obtain ⟨a', mid', h', ⟨ha, hmid⟩, hr⟩ := hnext
      obtain rfl : a = a' := Except.ok.inj ha
      obtain rfl : mid = mid' := hmid
      exact hr

@[simp] theorem andThen_fails {s : Step ts α}
    {next : α → (rest : List Token) → rest <:+ ts → Step rest β} {e : SyntaxError}
    {rest : List Token} :
    (s.andThen next).Fails e rest ↔ s.Fails e rest ∨
      ∃ a mid, ∃ h : mid <:+ ts, s.Reads a mid ∧ (next a mid h).Fails e rest := by
  obtain ⟨outcome, mid, h⟩ := s
  cases outcome with
  | error e' => simp [andThen, Reads, Fails]
  | ok a =>
    refine ⟨?_, ?_⟩
    · intro hf
      exact Or.inr ⟨a, mid, h, ⟨rfl, rfl⟩, hf⟩
    · intro hcase
      rcases hcase with ⟨hf, -⟩ | ⟨a', mid', h', ⟨ha, hmid⟩, hf⟩
      · simp at hf
      · obtain rfl : a = a' := Except.ok.inj ha
        obtain rfl : mid = mid' := hmid
        exact hf

/-! ## Steps that end alike -/

/-- Two steps, perhaps from different places, end alike. -/
def Same (s : Step ts α) (s' : Step us α) : Prop :=
  s.outcome = s'.outcome ∧ s.rest = s'.rest

theorem Same.symm {s : Step ts α} {s' : Step us α} (h : s.Same s') : s'.Same s :=
  ⟨h.1.symm, h.2.symm⟩

theorem Same.trans {s : Step ts α} {s' : Step us α} {s'' : Step vs α} (h : s.Same s')
    (h' : s'.Same s'') : s.Same s'' := ⟨h.1.trans h'.1, h.2.trans h'.2⟩

theorem Same.reads_iff {s : Step ts α} {s' : Step us α} (h : s.Same s') {a : α}
    {rest : List Token} : s.Reads a rest ↔ s'.Reads a rest := by
  rw [Reads, Reads, h.1, h.2]

theorem Same.fails_iff {s : Step ts α} {s' : Step us α} (h : s.Same s') {e : SyntaxError}
    {rest : List Token} : s.Fails e rest ↔ s'.Fails e rest := by
  rw [Fails, Fails, h.1, h.2]

theorem Reads.same {s : Step ts α} {s' : Step us α} {a : α} {rest : List Token}
    (h : s.Reads a rest) (h' : s'.Reads a rest) : s.Same s' :=
  ⟨h.1.trans h'.1.symm, h.2.trans h'.2.symm⟩

theorem Fails.same {s : Step ts α} {s' : Step us α} {e : SyntaxError} {rest : List Token}
    (h : s.Fails e rest) (h' : s'.Fails e rest) : s.Same s' :=
  ⟨h.1.trans h'.1.symm, h.2.trans h'.2.symm⟩

/-- After a success, going on is all that counts. -/
theorem Reads.andThen_same {s : Step ts α} {a : α} {mid : List Token} (h : s.Reads a mid)
    (next : α → (rest : List Token) → rest <:+ ts → Step rest β) :
    (s.andThen next).Same (next a mid h.suffix) := by
  obtain ⟨outcome, mid', hmid⟩ := s
  obtain ⟨hok, hrest⟩ := id h
  obtain rfl : outcome = .ok a := hok
  obtain rfl : mid' = mid := hrest
  exact ⟨rfl, rfl⟩

theorem Same.map {s : Step ts α} {s' : Step us α} (h : s.Same s') (f : α → β) :
    (s.map f).Same (s'.map f) := ⟨congrArg (Except.map f) h.1, h.2⟩

end Concord.Step
