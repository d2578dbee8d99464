import EmbeddedCss.Text.Basic

/-! # Scanners

A scanner reads one lexeme off the front of a text and gives the lexeme and what is left. Scanners
combine as in a parsing expression grammar: the first alternative that matches wins, and a
repetition takes as much as it can and gives nothing back.

The main statements say that the combinators keep two properties: a scanner is *exact* if lexeme and
rest make up the text, and *productive* if it is exact and its lexeme is never empty. -/

namespace EmbeddedCss

/-- Reads a lexeme off the front of a text, or refuses. -/
abbrev Scanner := Text → Option (Text × Text)

namespace Scanner

/-- One character of a class. -/
def char (p : Char → Bool) : Scanner
  | [] => none
  | c :: t => if p c then some ([c], t) else none

/-- One lexeme after the other, as one lexeme. -/
def seq (a b : Scanner) : Scanner := fun s ↦
  match a s with
  | none => none
  | some (l, r) => (b r).map fun p ↦ (l ++ p.1, p.2)

/-- The first alternative, or else the second. -/
def orElse (a b : Scanner) : Scanner := fun s ↦
  match a s with
  | none => b s
  | some p => some p

/-- What a scanner reads, if what is left then passes a test. -/
def followedBy (a : Scanner) (test : Text → Bool) : Scanner := fun s ↦
  match a s with
  | none => none
  | some (l, r) => if test r then some (l, r) else none

/-- The longest run, perhaps empty, of characters of a class. -/
def run (p : Char → Bool) : Scanner := fun s ↦ some (s.takeWhile p, s.dropWhile p)

/-- At most `n` lexemes, as many as there are. -/
def upTo (a : Scanner) : Nat → Text → Text × Text
  | 0, s => ([], s)
  | n + 1, s =>
    match a s with
    | none => ([], s)
    | some (l, r) => let p := upTo a n r; (l ++ p.1, p.2)

/-- As many lexemes as there are, perhaps none. A text holds no more lexemes than characters. -/
def many (a : Scanner) (s : Text) : Text × Text := upTo a s.length s

/-- As many lexemes as there are, and at least one. -/
def many1 (a : Scanner) : Scanner := seq a fun s ↦ some (many a s)

/-! ## Exactness -/

/-- What is read and what is left make up the text. -/
def Exact (a : Scanner) : Prop := ∀ ⦃s l r⦄, a s = some (l, r) → l ++ r = s

/-- An exact scanner that reads something whenever it matches. -/
def Productive (a : Scanner) : Prop := a.Exact ∧ ∀ ⦃s l r⦄, a s = some (l, r) → l ≠ []

/-- What a productive scanner leaves is shorter. -/
theorem Productive.length_lt {a : Scanner} (ha : a.Productive) {s l r : Text}
    (h : a s = some (l, r)) : r.length < s.length := by
  have := List.length_pos_iff.2 (ha.2 h)
  rw [← ha.1 h, List.length_append]
  omega

theorem exact_char (p : Char → Bool) : (char p).Exact := by
  rintro (_ | ⟨c, t⟩) l r h
  · simp [char] at h
  · simp only [char, Option.ite_none_right_eq_some, Option.some.injEq, Prod.mk.injEq] at h
    obtain ⟨-, rfl, rfl⟩ := h
    rfl

theorem productive_char (p : Char → Bool) : (char p).Productive := by
  refine ⟨exact_char p, ?_⟩
  rintro (_ | ⟨c, t⟩) l r h
  · simp [char] at h
  · simp only [char, Option.ite_none_right_eq_some, Option.some.injEq, Prod.mk.injEq] at h
    obtain ⟨-, rfl, -⟩ := h
    simp

theorem exact_run (p : Char → Bool) : (run p).Exact := by
  intro s l r h
  simp only [run, Option.some.injEq, Prod.mk.injEq] at h
  obtain ⟨rfl, rfl⟩ := h
  exact List.takeWhile_append_dropWhile

/-- A lexeme with a condition on what follows is a lexeme. -/
theorem of_followedBy {a : Scanner} {test : Text → Bool} {s l r : Text}
    (h : followedBy a test s = some (l, r)) : a s = some (l, r) ∧ test r = true := by
  simp only [followedBy] at h
  split at h
  · simp at h
  · rename_i h'
    simp only [Option.ite_none_right_eq_some, Option.some.injEq, Prod.mk.injEq] at h
    obtain ⟨ht, rfl, rfl⟩ := h
    exact ⟨h', ht⟩

theorem Exact.followedBy {a : Scanner} (ha : a.Exact) (test : Text → Bool) :
    (Scanner.followedBy a test).Exact := fun _ _ _ h ↦ ha (of_followedBy h).1

theorem Productive.followedBy {a : Scanner} (ha : a.Productive) (test : Text → Bool) :
    (Scanner.followedBy a test).Productive :=
  ⟨ha.1.followedBy test, fun _ _ _ h ↦ ha.2 (of_followedBy h).1⟩

/-- A sequence matches if its parts match one after the other. -/
theorem seq_eq_some_iff {a b : Scanner} {s l r : Text} : seq a b s = some (l, r) ↔
    ∃ l₁ r₁ l₂, a s = some (l₁, r₁) ∧ b r₁ = some (l₂, r) ∧ l = l₁ ++ l₂ := by
  simp only [seq]
  split
  · simp_all
  · rename_i l₁ r₁ h
    simp only [Option.map_eq_some_iff, Prod.mk.injEq, h, Option.some.injEq, Prod.exists]
    constructor
    · rintro ⟨l₂, _, hb, rfl, rfl⟩
      exact ⟨l₁, r₁, l₂, ⟨rfl, rfl⟩, hb, rfl⟩
    · rintro ⟨_, _, l₂, ⟨rfl, rfl⟩, hb, rfl⟩
      exact ⟨l₂, r, hb, rfl, rfl⟩

theorem Exact.seq {a b : Scanner} (ha : a.Exact) (hb : b.Exact) : (Scanner.seq a b).Exact := by
  intro s l r h
  obtain ⟨l₁, r₁, l₂, h₁, h₂, rfl⟩ := seq_eq_some_iff.1 h
  rw [List.append_assoc, hb h₂, ha h₁]

theorem Productive.seq {a b : Scanner} (ha : a.Productive) (hb : b.Exact) :
    (Scanner.seq a b).Productive := by
  refine ⟨ha.1.seq hb, fun s l r h ↦ ?_⟩
  obtain ⟨l₁, r₁, l₂, h₁, -, rfl⟩ := seq_eq_some_iff.1 h
  simp [ha.2 h₁]

/-- An alternative is one of the two. -/
theorem orElse_eq_some {a b : Scanner} {s : Text} {p : Text × Text}
    (h : orElse a b s = some p) : a s = some p ∨ b s = some p := by
  simp only [orElse] at h
  split at h
  · exact .inr h
  · rename_i q hq
    exact .inl (hq.trans h)

theorem Exact.orElse {a b : Scanner} (ha : a.Exact) (hb : b.Exact) : (Scanner.orElse a b).Exact :=
  fun _ _ _ h ↦ (orElse_eq_some h).elim (@ha _ _ _) (@hb _ _ _)

theorem Productive.orElse {a b : Scanner} (ha : a.Productive) (hb : b.Productive) :
    (Scanner.orElse a b).Productive :=
  ⟨ha.1.orElse hb.1, fun _ _ _ h ↦ (orElse_eq_some h).elim (@ha.2 _ _ _) (@hb.2 _ _ _)⟩

/-- A repetition loses nothing. -/
theorem Exact.upTo {a : Scanner} (ha : a.Exact) (n : Nat) (s : Text) :
    (Scanner.upTo a n s).1 ++ (Scanner.upTo a n s).2 = s := by
  induction n generalizing s with
  | zero => rfl
  | succ n ih =>
    rw [Scanner.upTo]
    split
    · rfl
    · rename_i l r h
      rw [List.append_assoc, ih, ha h]

theorem Exact.many {a : Scanner} (ha : a.Exact) (s : Text) :
    (Scanner.many a s).1 ++ (Scanner.many a s).2 = s := ha.upTo _ s

theorem Productive.many1 {a : Scanner} (ha : a.Productive) : (Scanner.many1 a).Productive := by
  refine ha.seq fun s l r h ↦ ?_
  simp only [Option.some.injEq] at h
  simpa [h] using ha.1.many s

end Scanner

end EmbeddedCss
