import EmbeddedCss.Css.Parse

/-! # Derivations of a stylesheet

The grammar as a relation: which item or body is read off the front of a text, and what is left.
A derivation has one rule for each way in which the parser succeeds; it forgets the trace, the
offsets and the fuel, and keeps what each lexeme was read from. What is shown of every tree that
was read is shown by induction on its derivation.

The main statements are that whatever the parser reads has a derivation, and that a derivation
accounts for every character: what was read and what is left make up the text. -/

namespace EmbeddedCss

/-- A value that was mapped comes from a value. -/
theorem exists_of_map_eq_ok {ε α β : Type} {x : Except ε α} {f : α → β} {b : β}
    (h : x.map f = .ok b) : ∃ a, x = .ok a ∧ f a = b := by
  cases x with
  | error e => simp [Except.map] at h
  | ok a => exact ⟨a, rfl, by simpa [Except.map] using h⟩

/-! ## Values of the combinators -/

namespace Parser

variable {σ α β : Type}

@[simp] theorem value_map (f : α → β) (p : Parser σ α) (c : Cursor) :
    value (f <$> p) c = (value p c).map fun r ↦ (f r.1, r.2) := by
  change value (p >>= fun a ↦ pure (f a)) c = _
  rw [value_bind]
  cases value p c <;> rfl

/-- Of two parsers in a row the second matches where the first stopped. -/
theorem value_bind_eq_some {p : Parser σ α} {f : α → Parser σ β} {c : Cursor} {r : β × Cursor} :
    value (p >>= f) c = some r ↔
      ∃ a c₁, value p c = some (a, c₁) ∧ value (f a) c₁ = some r := by
  rw [value_bind, Option.bind_eq_some_iff, Prod.exists]

/-- An optional value is read in any case. -/
theorem value_optional (p : Parser σ α) (c : Cursor) :
    value (optional p) c = some ((value p c).elim (none, c) fun r ↦ (some r.1, r.2)) := by
  rw [optional, value_orElse, value_map, value_pure]
  cases value p c <;> rfl

/-- An optional value is there exactly if its parser matches. -/
theorem value_optional_eq_some {p : Parser σ α} {c c' : Cursor} {a? : Option α}
    (h : value (optional p) c = some (a?, c')) :
    (∃ a, value p c = some (a, c') ∧ a? = some a) ∨ (value p c = none ∧ a? = none ∧ c' = c) := by
  rw [optional, value_orElse, value_map, value_pure] at h
  cases hp : value p c with
  | none =>
    simp only [hp, Option.map_none, Option.none_or, Option.some.injEq, Prod.mk.injEq] at h
    exact .inr ⟨rfl, h.1.symm, h.2.symm⟩
  | some r =>
    simp only [hp, Option.map_some, Option.some_or, Option.some.injEq, Prod.mk.injEq] at h
    obtain ⟨rfl, rfl⟩ := h
    exact .inl ⟨r.1, rfl, rfl⟩

/-- A lexeme is read where its scanner matches. -/
theorem value_lexeme_eq_some {a : Scanner} {c c' : Cursor} {l : Text}
    (h : value (lexeme a : Parser σ Text) c = some (l, c')) : a c.rest = some (l, c'.rest) := by
  rw [value_lexeme, Option.map_eq_some_iff] at h
  obtain ⟨p, hp, he⟩ := h
  simp only [Prod.mk.injEq] at he
  obtain ⟨rfl, rfl⟩ := he
  exact hp

theorem value_token_eq_some {symbol : σ} {a : Scanner} {c c' : Cursor} {l : Text}
    (h : value (token symbol a) c = some (l, c')) : a c.rest = some (l, c'.rest) :=
  @value_lexeme_eq_some σ a c c' l h

/-- A character is read where it stands next. -/
theorem value_char_eq_some {x : Char} {c : Cursor} {r : Unit × Cursor}
    (h : value (char x : Parser σ Unit) c = some r) : c.rest = x :: r.2.rest := by
  change value (lexeme (Scanner.char (· == x)) >>= fun _ ↦ pure ()) c = some r at h
  obtain ⟨l, c₁, hl, hr⟩ := value_bind_eq_some.1 h
  obtain rfl : ((), c₁) = r := by simpa using hr
  have hx := value_lexeme_eq_some hl
  cases hc : c.rest with
  | nil => simp [hc, Scanner.char] at hx
  | cons y t =>
    simp only [hc, Scanner.char, beq_iff_eq, Option.ite_none_right_eq_some, Option.some.injEq,
      Prod.mk.injEq] at hx
    rw [hx.1, hx.2.2]

end Parser

namespace Css

/-! ## Derivations -/

/-- A lexeme is read where there is one. -/
inductive MayRead (a : Scanner) : Text → Option Text → Text → Prop
  | some {s l r : Text} : a s = some (l, r) → MayRead a s (some l) r
  | none {s : Text} : a s = none → MayRead a s none s

/-- The parameters of an at-rule are read, or there are none. -/
inductive ParamsRead : Text → Option (Text × Text) → Text → Prop
  | some {s space s₁ params r : Text} : Lexeme.spaces s = some (space, s₁) →
      Lexeme.prelude s₁ = some (params, r) → ParamsRead s (some (space, params)) r
  | none {s : Text} : ParamsRead s none s

mutual

/-- An item is read off the front of a text. -/
inductive Item.Reads : Text → Item → Text → Prop
  | comment {s l r : Text} : Lexeme.loneComment s = some (l, r) → Item.Reads s (.comment l) r
  | rule {s selector s₁ between s₂ r : Text} {body : Body} :
      Lexeme.prelude s = some (selector, s₁) → Lexeme.spaces s₁ = some (between, '{' :: s₂) →
      Body.Reads s₂ body ('}' :: r) → Item.Reads s (.rule selector between body) r
  /-- An at-rule in front of anything but a block or a semicolon ends with its parameters. -/
  | bare {s name s₁ r : Text} {params : Option (Text × Text)} :
      Lexeme.atName s = some (name, s₁) → ParamsRead s₁ params r →
      Item.Reads ('@' :: s) (.statement name params none) r
  | statement {s name s₁ s₂ between r : Text} {params : Option (Text × Text)} :
      Lexeme.atName s = some (name, s₁) → ParamsRead s₁ params s₂ →
      Lexeme.spaces s₂ = some (between, ';' :: r) →
      Item.Reads ('@' :: s) (.statement name params (some between)) (';' :: r)
  | atBlock {s name s₁ s₂ between s₃ r : Text} {params : Option (Text × Text)} {body : Body} :
      Lexeme.atName s = some (name, s₁) → ParamsRead s₁ params s₂ →
      Lexeme.spaces s₂ = some (between, '{' :: s₃) → Body.Reads s₃ body ('}' :: r) →
      Item.Reads ('@' :: s) (.atBlock name params between body) r
  | decl {s property s₁ colon s₂ s₃ r : Text} {value trailing : Option Text} :
      Lexeme.property s = some (property, s₁) → Lexeme.colon s₁ = some (colon, s₂) →
      MayRead Lexeme.prelude s₂ value s₃ → MayRead Lexeme.trailing s₃ trailing r →
      Item.Reads s (.decl property colon (value.getD [] ++ trailing.getD [])) r

/-- A body is read off the front of a text. -/
inductive Body.Reads : Text → Body → Text → Prop
  | done {s gap r : Text} : Lexeme.gap s = some (gap, r) → Body.Reads s (.done gap) r
  | item {s gap s₁ s₂ r : Text} {item : Item} {rest : Body} :
      Lexeme.gap s = some (gap, s₁) → Item.Reads s₁ item s₂ → Body.Reads s₂ rest r →
      Body.Reads s (.item gap item rest) r

end

/-! ## What the parser reads is derived -/

section Parsers

open EmbeddedCss.Parser

variable {body : Parser Symbol Body}
  (hbody : ∀ {c b c'}, value body c = some (b, c') → Body.Reads c.rest b c'.rest)

include hbody

theorem reads_of_value_block {c c' : Cursor} {b : Body}
    (h : value (Grammar.block body) c = some (b, c')) :
    ∃ s, c.rest = '{' :: s ∧ Body.Reads s b ('}' :: c'.rest) := by
  rw [Grammar.block, value_named] at h
  obtain ⟨_, c₁, h₁, h⟩ := value_bind_eq_some.1 h
  obtain ⟨b', c₂, h₂, h⟩ := value_bind_eq_some.1 h
  obtain ⟨_, c₃, h₃, h⟩ := value_bind_eq_some.1 h
  obtain ⟨rfl, rfl⟩ : b' = b ∧ c₃ = c' := by simpa using h
  refine ⟨c₁.rest, value_char_eq_some h₁, ?_⟩
  rw [← value_char_eq_some h₃]
  exact hbody h₂

theorem reads_of_value_rule {c c' : Cursor} {i : Item}
    (h : value (Grammar.rule body) c = some (i, c')) : Item.Reads c.rest i c'.rest := by
  rw [Grammar.rule, value_named] at h
  obtain ⟨selector, c₁, h₁, h⟩ := value_bind_eq_some.1 h
  obtain ⟨between, c₂, h₂, h⟩ := value_bind_eq_some.1 h
  obtain ⟨b, c₃, h₃, h⟩ := value_bind_eq_some.1 h
  obtain ⟨rfl, rfl⟩ : Item.rule selector between b = i ∧ c₃ = c' := by simpa using h
  obtain ⟨s, hs, hb⟩ := reads_of_value_block hbody h₃
  refine .rule (value_token_eq_some h₁) ?_ hb
  rw [← hs]
  exact value_lexeme_eq_some h₂

omit hbody in
theorem reads_of_value_params {c c' : Cursor} {params : Option (Text × Text)}
    (h : value (optional Grammar.params) c = some (params, c')) :
    ParamsRead c.rest params c'.rest := by
  rcases value_optional_eq_some h with ⟨p, hp, rfl⟩ | ⟨-, rfl, rfl⟩
  · obtain ⟨space, c₁, h₁, hp⟩ := value_bind_eq_some.1 hp
    obtain ⟨text, c₂, h₂, hp⟩ := value_bind_eq_some.1 hp
    obtain ⟨rfl, rfl⟩ : (space, text) = p ∧ c₂ = c' := by simpa using hp
    exact .some (value_token_eq_some h₁) (value_token_eq_some h₂)
  · exact .none

/-- What ends an at-rule: white space in front of a block, or of a semicolon that is left. -/
theorem reads_of_value_atEnd {c c' : Cursor} {between : Text} {b? : Option Body}
    (h : value (Grammar.atEnd body) c = some ((between, b?), c')) :
    (∃ b s, b? = some b ∧ Lexeme.spaces c.rest = some (between, '{' :: s) ∧
      Body.Reads s b ('}' :: c'.rest)) ∨
    ∃ r, b? = none ∧ c'.rest = ';' :: r ∧ Lexeme.spaces c.rest = some (between, ';' :: r) := by
  obtain ⟨space, c₁, h₁, h⟩ := value_bind_eq_some.1 h
  have hspace := value_token_eq_some h₁
  rw [value_orElse, Option.or_eq_some_iff] at h
  rcases h with h | ⟨-, h⟩
  · obtain ⟨b, c₂, h₂, h⟩ := value_bind_eq_some.1 h
    obtain ⟨⟨rfl, rfl⟩, rfl⟩ : (space = between ∧ some b = b?) ∧ c₂ = c' := by simpa using h
    obtain ⟨s, hs, hb⟩ := reads_of_value_block hbody h₂
    exact .inl ⟨b, s, rfl, hs ▸ hspace, hb⟩
  · obtain ⟨_, c₂, h₂, h⟩ := value_bind_eq_some.1 h
    obtain ⟨⟨rfl, rfl⟩, rfl⟩ : (space = between ∧ none = b?) ∧ c₂ = c' := by simpa using h
    simp only [value_ahead, beq_iff_eq, Option.ite_none_right_eq_some, Option.some.injEq,
      Prod.mk.injEq, true_and] at h₂
    obtain ⟨hsemi, rfl⟩ := h₂
    obtain ⟨r, hr⟩ := List.head?_eq_some_iff.1 hsemi
    exact .inr ⟨r, rfl, hr, hr ▸ hspace⟩

theorem reads_of_value_atRule {c c' : Cursor} {i : Item}
    (h : value (Grammar.atRule body) c = some (i, c')) : Item.Reads c.rest i c'.rest := by
  rw [Grammar.atRule, value_named] at h
  obtain ⟨_, c₁, h₁, h⟩ := value_bind_eq_some.1 h
  obtain ⟨name, c₂, h₂, h⟩ := value_bind_eq_some.1 h
  obtain ⟨params, c₃, h₃, h⟩ := value_bind_eq_some.1 h
  obtain ⟨e?, c₄, h₄, hi⟩ := value_bind_eq_some.1 h
  rw [value_char_eq_some h₁]
  have hname := value_token_eq_some h₂
  have hparams := reads_of_value_params h₃
  rcases value_optional_eq_some h₄ with ⟨⟨between, b?⟩, he, rfl⟩ | ⟨-, rfl, rfl⟩
  · rcases reads_of_value_atEnd hbody he with ⟨b, s, rfl, hs, hb⟩ | ⟨r, rfl, hr, hs⟩
    · obtain ⟨rfl, rfl⟩ : Item.atBlock name params between b = i ∧ c₄ = c' := by simpa using hi
      exact .atBlock hname hparams hs hb
    · obtain ⟨rfl, rfl⟩ : Item.statement name params (some between) = i ∧ c₄ = c' := by
        simpa using hi
      rw [hr]
      exact .statement hname hparams hs
  · obtain ⟨rfl, rfl⟩ : Item.statement name params none = i ∧ c₄ = c' := by simpa using hi
    exact .bare hname hparams

omit hbody in
theorem mayRead_of_value_optional {a : Scanner} {symbol : Symbol} {c c' : Cursor}
    {l : Option Text} (h : value (optional (token symbol a)) c = some (l, c')) :
    MayRead a c.rest l c'.rest := by
  rcases value_optional_eq_some h with ⟨l, hl, rfl⟩ | ⟨hn, rfl, rfl⟩
  · exact .some (value_token_eq_some hl)
  · exact .none (by simpa using hn)

omit hbody in
theorem reads_of_value_decl {c c' : Cursor} {i : Item}
    (h : value Grammar.decl c = some (i, c')) : Item.Reads c.rest i c'.rest := by
  rw [Grammar.decl, value_named] at h
  obtain ⟨property, c₁, h₁, h⟩ := value_bind_eq_some.1 h
  obtain ⟨colon, c₂, h₂, h⟩ := value_bind_eq_some.1 h
  obtain ⟨v, c₃, h₃, h⟩ := value_bind_eq_some.1 h
  obtain ⟨trailing, c₄, h₄, h⟩ := value_bind_eq_some.1 h
  obtain ⟨rfl, rfl⟩ :
      Item.decl property colon (v.getD [] ++ trailing.getD []) = i ∧ c₄ = c' := by
    simpa using h
  exact .decl (value_token_eq_some h₁) (value_token_eq_some h₂)
    (mayRead_of_value_optional h₃) (mayRead_of_value_optional h₄)

theorem reads_of_value_item {c c' : Cursor} {i : Item}
    (h : value (Grammar.item body) c = some (i, c')) : Item.Reads c.rest i c'.rest := by
  simp only [Grammar.item, value_orElse, Option.or_eq_some_iff] at h
  rcases h with h | ⟨-, h | ⟨-, h | ⟨-, h⟩⟩⟩
  · exact reads_of_value_atRule hbody h
  · rw [value_map, Option.map_eq_some_iff] at h
    obtain ⟨⟨l, c₁⟩, hl, h⟩ := h
    obtain ⟨rfl, rfl⟩ : Item.comment l = i ∧ c₁ = c' := by simpa using h
    exact .comment (value_token_eq_some hl)
  · exact reads_of_value_rule hbody h
  · exact reads_of_value_decl h

end Parsers

/-- What the parser reads as a body, with whatever fuel, has a derivation. -/
theorem reads_of_value_body (fuel : Nat) {c c' : Cursor} {b : Body}
    (h : (Grammar.body fuel).value c = some (b, c')) : Body.Reads c.rest b c'.rest := by
  induction fuel generalizing c c' b with
  | zero => simp [Grammar.body] at h
  | succ fuel ih =>
    rw [Grammar.body] at h
    obtain ⟨gap, c₁, h₁, h⟩ := Parser.value_bind_eq_some.1 h
    obtain ⟨i?, c₂, h₂, hb⟩ := Parser.value_bind_eq_some.1 h
    have hgap := Parser.value_lexeme_eq_some h₁
    rcases Parser.value_optional_eq_some h₂ with ⟨i, hi, rfl⟩ | ⟨-, rfl, rfl⟩
    · obtain ⟨rest, c₃, h₃, hb⟩ := Parser.value_bind_eq_some.1 hb
      obtain ⟨rfl, rfl⟩ : Body.item gap i rest = b ∧ c₃ = c' := by simpa using hb
      exact .item hgap (reads_of_value_item ih hi) (ih h₃)
    · obtain ⟨rfl, rfl⟩ : Body.done gap = b ∧ c₂ = c' := by simpa using hb
      exact .done hgap

/-- A text can be read exactly if its stylesheet can be parsed. -/
theorem parse_eq_ok_iff {css : Text} {root : Root} : parse css = .ok root ↔
    ∃ b c, (Grammar.stylesheet css.length).value ⟨css, 0⟩ = some (b, c) ∧ b.toRoot = root := by
  rw [parse, parseBody, Parser.value]
  cases (Grammar.stylesheet css.length ⟨css, 0⟩).result with
  | none => simp [Except.map]
  | some p => simp [Except.map, Prod.ext_iff]

/-- A text that can be read is derived as a whole. -/
theorem reads_of_parseBody {css : Text} {b : Body} (h : parseBody css = .ok b) :
    Body.Reads css b [] := by
  simp only [parseBody] at h
  split at h
  · rename_i b' c' hv
    obtain rfl : b' = b := by simpa using h
    change (Grammar.stylesheet css.length).value ⟨css, 0⟩ = some (b', c') at hv
    rw [Grammar.stylesheet, Parser.value_named] at hv
    obtain ⟨b, c₁, h₁, hv⟩ := Parser.value_bind_eq_some.1 hv
    obtain ⟨_, c₂, h₂, hv⟩ := Parser.value_bind_eq_some.1 hv
    obtain ⟨rfl, rfl⟩ : b = b' ∧ c₂ = c' := by simpa using hv
    simp only [Parser.value_named, Parser.value_ahead, List.isEmpty_iff,
      Option.ite_none_right_eq_some, Option.some.injEq, Prod.mk.injEq, true_and] at h₂
    rw [← h₂.1]
    exact reads_of_value_body _ h₁
  · simp at h

/-- A tree that was read comes from a derivation of the whole text. -/
theorem reads_of_parse {css : Text} {root : Root} (h : parse css = .ok root) :
    ∃ b, Body.Reads css b [] ∧ b.toRoot = root := by
  obtain ⟨b, hb, hroot⟩ := exists_of_map_eq_ok h
  exact ⟨b, reads_of_parseBody hb, hroot⟩

end Css

end EmbeddedCss
