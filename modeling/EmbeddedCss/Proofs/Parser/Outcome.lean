import EmbeddedCss.Proofs.Css.Derivation

/-! # What a parser does with a text

A parser either yields a value from a text and leaves the rest of it, or refuses the text. Which of
the two depends on the text only and not on where it stands. There is a rule for every combinator
and either outcome. -/

namespace EmbeddedCss.Parser

variable {σ α β : Type} {p q : Parser σ α} {f : α → Parser σ β} {s s₁ r : Text} {a : α} {b : β}

/-- Wherever the text `s` stands, a parser reads `a` off its front and leaves `r`. -/
def Yields (p : Parser σ α) (s : Text) (a : α) (r : Text) : Prop :=
  ∀ n, ∃ n', p.value ⟨s, n⟩ = some (a, ⟨r, n'⟩)

/-- Wherever the text `s` stands, a parser reads nothing off its front. -/
def Refuses (p : Parser σ α) (s : Text) : Prop := ∀ n, p.value ⟨s, n⟩ = none

/-! ## One parser after the other -/

theorem yields_pure (a : α) (s : Text) : (pure a : Parser σ α).Yields s a s := fun n ↦ ⟨n, rfl⟩

theorem Yields.bind (hp : p.Yields s a s₁) (hf : (f a).Yields s₁ b r) : (p >>= f).Yields s b r := by
  intro n
  obtain ⟨n₁, h₁⟩ := hp n
  obtain ⟨n₂, h₂⟩ := hf n₁
  exact ⟨n₂, value_bind_eq_some.2 ⟨a, _, h₁, h₂⟩⟩

theorem Refuses.bind (hp : p.Refuses s) : (p >>= f).Refuses s := by
  intro n
  rw [value_bind, hp n, Option.bind_none]

/-- A parser refuses a text if what comes second refuses what the first leaves. -/
theorem Yields.bind_refuses (hp : p.Yields s a s₁) (hf : (f a).Refuses s₁) :
    (p >>= f).Refuses s := by
  intro n
  obtain ⟨n₁, h₁⟩ := hp n
  rw [value_bind, h₁, Option.bind_some]
  exact hf n₁

theorem Yields.map (f : α → β) (hp : p.Yields s a r) : (f <$> p).Yields s (f a) r := by
  intro n
  obtain ⟨n', h⟩ := hp n
  exact ⟨n', by rw [value_map, h, Option.map_some]⟩

theorem Refuses.map (f : α → β) (hp : p.Refuses s) : (f <$> p).Refuses s := by
  intro n
  rw [value_map, hp n, Option.map_none]

/-! ## Alternatives -/

theorem Yields.orElse (hp : p.Yields s a r) : (orElse p q).Yields s a r := by
  intro n
  obtain ⟨n', h⟩ := hp n
  exact ⟨n', by rw [value_orElse, h, Option.some_or]⟩

theorem Refuses.orElse (hp : p.Refuses s) (hq : q.Yields s a r) : (orElse p q).Yields s a r := by
  intro n
  obtain ⟨n', h⟩ := hq n
  exact ⟨n', by rw [value_orElse, hp n, Option.none_or, h]⟩

theorem Refuses.orElse_refuses (hp : p.Refuses s) (hq : q.Refuses s) :
    (Parser.orElse p q).Refuses s := by
  intro n
  rw [value_orElse, hp n, Option.none_or, hq n]

theorem Yields.optional (hp : p.Yields s a r) : (optional p).Yields s (some a) r :=
  (hp.map some).orElse

theorem Refuses.optional (hp : p.Refuses s) : (optional p).Yields s none s :=
  (hp.map some).orElse (yields_pure none s)

/-! ## Names and lexemes -/

theorem Yields.named (symbol : σ) (hp : p.Yields s a r) : (named symbol p).Yields s a r := hp

theorem Refuses.named (symbol : σ) (hp : p.Refuses s) : (named symbol p).Refuses s := hp

section Lexeme

variable {scanner : Scanner} {l : Text}

theorem yields_lexeme (h : scanner s = some (l, r)) :
    (lexeme scanner : Parser σ Text).Yields s l r := by
  intro n
  exact ⟨n + Text.size l, by rw [value_lexeme, h, Option.map_some]⟩

theorem refuses_lexeme (h : scanner s = none) : (lexeme scanner : Parser σ Text).Refuses s := by
  intro n
  rw [value_lexeme, h, Option.map_none]

theorem yields_token (symbol : σ) (h : scanner s = some (l, r)) :
    (token symbol scanner).Yields s l r := (yields_lexeme h).named symbol

theorem refuses_token (symbol : σ) (h : scanner s = none) : (token symbol scanner).Refuses s :=
  (refuses_lexeme h).named symbol

end Lexeme

theorem yields_char (x : Char) (s : Text) : (char x : Parser σ Unit).Yields (x :: s) () s :=
  (yields_lexeme (l := [x]) (by simp [Scanner.char])).map _

theorem refuses_char {x : Char} (h : s.head? ≠ some x) : (char x : Parser σ Unit).Refuses s := by
  refine (refuses_lexeme ?_).map _
  cases s with
  | nil => rfl
  | cons y t =>
    have hne : y ≠ x := by simpa using h
    simp [Scanner.char, hne]

theorem yields_ahead {test : Text → Bool} (h : test s = true) :
    (ahead test : Parser σ Unit).Yields s () s := by
  intro n
  exact ⟨n, by rw [value_ahead, if_pos h]⟩

theorem refuses_ahead {test : Text → Bool} (h : test s = false) :
    (ahead test : Parser σ Unit).Refuses s := by
  intro n
  rw [value_ahead, h]
  rfl

end EmbeddedCss.Parser
