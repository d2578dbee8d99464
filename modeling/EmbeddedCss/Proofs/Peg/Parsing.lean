import EmbeddedCss.Proofs.Css.Derivation
import EmbeddedCss.Proofs.Peg.Recognition

/-! # Parsers of parsing expressions

A parser agrees with an expression at a place if both fail there, or both match up to the same place
and a relation holds between the value that was read and the pairs that were left. Parsers are put
together in the way expressions are, so that agreement is shown step by step along a parser: what is
known of one step is at hand in the next. -/

namespace EmbeddedCss.Peg

open EmbeddedCss.Parser

variable {σ ν α β : Type} {g : Grammar ν} {c : Cursor}

/-! ## Expressions -/

section Matches

variable {q : Bool} {e e' f : Expr ν} {r : Option (List (Pair ν) × Cursor)}

/-- A common first part may be taken out of two alternatives. -/
theorem Matches.factor (h : Matches g q (.seq e (.choice e' f)) c r) :
    Matches g q (.choice (.seq e e') (.seq e f)) c r := by
  cases h with
  | seq he h =>
    cases h with
    | choice_first h => exact .choice_first (.seq he h)
    | choice_second h' h => exact .choice_second (.seq_fails_second he h') (.seq he h)
  | seq_fails_first he => exact .choice_second (.seq_fails_first he) (.seq_fails_first he)
  | seq_fails_second he h =>
    cases h with
    | choice_second h' h =>
      exact .choice_second (.seq_fails_second he h') (.seq_fails_second he h)

/-- A repetition that takes nothing leaves the place to what follows. -/
theorem Matches.star_seq_stops {ps : List (Pair ν)} {c' : Cursor} (he : Matches g q e c none)
    (hf : Matches g q f c (some (ps, c'))) : Matches g q (.seq (.star e) f) c (some (ps, c')) :=
  .seq (.star_stops he) hf

theorem Matches.star_seq_goes_on {ps qs : List (Pair ν)} {c₁ c₂ : Cursor}
    (he : Matches g q e c (some (ps, c₁)))
    (hf : Matches g q (.seq (.star e) f) c₁ (some (qs, c₂))) :
    Matches g q (.seq (.star e) f) c (some (ps ++ qs, c₂)) := by
  cases hf with
  | seq hstar hf =>
    rw [← List.append_assoc]
    exact .seq (.star_goes_on he hstar) hf

end Matches

/-! ## Agreement -/

/-- A parser agrees with an expression at a place: both fail, or both match and stop at the same
place, and the value and the pairs are as `Q` says. -/
inductive Agrees (g : Grammar ν) (p : Parser σ α) (e : Expr ν) (c : Cursor)
    (Q : α → List (Pair ν) → Cursor → Prop) : Prop
  | fails : value p c = none → Matches g false e c none → Agrees g p e c Q
  | succeeds {a : α} {ps : List (Pair ν)} {c' : Cursor} : value p c = some (a, c') →
      Matches g false e c (some (ps, c')) → Q a ps c' → Agrees g p e c Q

section Agrees

variable {p p' : Parser σ α} {e e' : Expr ν} {Q Q' : α → List (Pair ν) → Cursor → Prop}

theorem Agrees.mono (h : Agrees g p e c Q)
    (hQ : ∀ {a ps c'}, Behind c c' → Q a ps c' → Q' a ps c') : Agrees g p e c Q' := by
  cases h with
  | fails hv hm => exact .fails hv hm
  | succeeds hv hm h => exact .succeeds hv hm (hQ hm.behind h)

/-- One parser after the other agrees with one expression after the other. -/
theorem Agrees.bind {f : α → Parser σ β} {R : β → List (Pair ν) → Cursor → Prop}
    (h : Agrees g p e c Q)
    (hf : ∀ {a ps c₁}, Behind c c₁ → Q a ps c₁ →
      Agrees g (f a) e' c₁ fun b qs c₂ ↦ R b (ps ++ qs) c₂) :
    Agrees g (p >>= f) (.seq e e') c R := by
  cases h with
  | fails hv hm => exact .fails (by rw [value_bind, hv]; rfl) (.seq_fails_first hm)
  | @succeeds a ps c₁ hv hm h =>
    cases hf hm.behind h with
    | fails hv' hm' =>
      refine .fails ?_ (.seq_fails_second hm hm')
      rw [value_bind, hv]
      exact hv'
    | succeeds hv' hm' h' =>
      refine .succeeds ?_ (.seq hm hm') h'
      rw [value_bind, hv]
      exact hv'

/-- A value that is made of what was read agrees with the same expression. -/
theorem Agrees.bind_pure {f : α → Parser σ β} {R : β → List (Pair ν) → Cursor → Prop}
    (h : Agrees g p e c Q)
    (hf : ∀ {a ps c'}, Behind c c' → Q a ps c' → ∃ b, f a = pure b ∧ R b ps c') :
    Agrees g (p >>= f) e c R := by
  cases h with
  | fails hv hm => exact .fails (by rw [value_bind, hv]; rfl) hm
  | succeeds hv hm h =>
    obtain ⟨b, hb, hR⟩ := hf hm.behind h
    refine .succeeds (a := b) ?_ hm hR
    rw [value_bind, hv, Option.bind_some, hb]
    rfl

theorem Agrees.named (symbol : σ) (h : Agrees g p e c Q) : Agrees g (named symbol p) e c Q := by
  cases h with
  | fails hv hm => exact .fails hv hm
  | succeeds hv hm hQ => exact .succeeds hv hm hQ

theorem Agrees.orElse (h : Agrees g p e c Q) (h' : Agrees g p' e' c Q) :
    Agrees g (orElse p p') (.choice e e') c Q := by
  cases h with
  | fails hv hm =>
    cases h' with
    | fails hv' hm' =>
      exact .fails (by rw [value_orElse, hv, hv']; rfl) (.choice_second hm hm')
    | succeeds hv' hm' hQ =>
      exact .succeeds (by rw [value_orElse, hv, hv']; rfl) (.choice_second hm hm') hQ
  | succeeds hv hm hQ =>
    exact .succeeds (by rw [value_orElse, hv]; rfl) (.choice_first hm) hQ

/-- A value that may be missing agrees with an expression that may fail. -/
theorem Agrees.optional (h : Agrees g p e c Q) :
    Agrees g (optional p) e.opt c fun a? ps c' ↦
      (∃ a, a? = some a ∧ Q a ps c') ∨ a? = none ∧ ps = [] ∧ c' = c := by
  cases h with
  | fails hv hm =>
    refine .succeeds (a := none) ?_ (.choice_second hm .empty) (.inr ⟨rfl, rfl, rfl⟩)
    rw [value_optional, hv]
    rfl
  | @succeeds a ps c' hv hm hQ =>
    refine .succeeds (a := some a) ?_ (.choice_first hm) (.inl ⟨a, rfl, hQ⟩)
    rw [value_optional, hv]
    rfl

/-- Two alternatives may be told apart behind what they have in common. -/
theorem Agrees.factor {f : Expr ν} (h : Agrees g p (.seq e (.choice e' f)) c Q) :
    Agrees g p (.choice (.seq e e') (.seq e f)) c Q := by
  cases h with
  | fails hv hm => exact .fails hv hm.factor
  | succeeds hv hm hQ => exact .succeeds hv hm.factor hQ

/-- A parser that is only used at the start of the input need not look for it. -/
theorem Agrees.start_seq (hc : c.offset = 0) (h : Agrees g p e c Q) :
    Agrees g p (.seq .start e) c Q := by
  cases h with
  | fails hv hm => exact .fails hv (.seq_fails_second (.start hc) hm)
  | succeeds hv hm hQ => exact .succeeds hv (.seq (.start hc) hm) hQ

/-- Inside of a rule that is not atomic the pairs are left as outside of it. -/
theorem Agrees.call {r : ν} (hr : g.kind r ≠ .atomic)
    (h : Agrees g p (g.rule r) c fun a inner c' ↦
      Q a ((g.kind r).pairs false r ⟨c.offset, c'.offset⟩ inner) c') :
    Agrees g p (.call r) c Q := by
  have hq : (false || g.kind r == .atomic) = false := by simpa using hr
  cases h with
  | fails hv hm => exact .fails hv (.call_fails (by rwa [hq]))
  | succeeds hv hm hQ => exact .succeeds hv (.call (by rwa [hq])) hQ

/-- A rule leaves a pair with the pairs inside it. -/
theorem Agrees.call_normal {r : ν} (hr : g.kind r = .normal)
    (h : Agrees g p (g.rule r) c fun a inner c' ↦ Q a [.mk r ⟨c.offset, c'.offset⟩ inner] c') :
    Agrees g p (.call r) c Q :=
  .call (by simp [hr]) (h.mono fun _ hQ ↦ by rw [hr]; exact hQ)

theorem Agrees.call_silent {r : ν} (hr : g.kind r = .silent) (h : Agrees g p (g.rule r) c Q) :
    Agrees g p (.call r) c Q :=
  .call (by simp [hr]) (h.mono fun _ hQ ↦ by rw [hr]; exact hQ)

end Agrees

/-! ## Lexemes -/

section Lexemes

variable {a : Scanner} {e : Expr ν}

/-- A lexeme without a name leaves no pair. -/
theorem agrees_lexeme (h : Recognizes g false c.rest.length a e) :
    Agrees g (lexeme a : Parser σ Text) e c fun l ps c' ↦
      ps = [] ∧ c'.offset = c.offset + Text.size l ∧ a c.rest = some (l, c'.rest) := by
  have hm := h c (Nat.le_refl _)
  cases ha : a c.rest with
  | none =>
    rw [ha] at hm
    exact .fails (by rw [value_lexeme, ha]; rfl) hm
  | some s =>
    rw [ha] at hm
    exact .succeeds (by rw [value_lexeme, ha]; rfl) hm ⟨rfl, rfl, rfl⟩

/-- A lexeme of an atomic rule leaves a pair with nothing inside it. -/
theorem agrees_token {symbol : σ} {r : ν} (hr : g.kind r = .atomic)
    (h : Recognizes g true c.rest.length a (g.rule r)) :
    Agrees g (token symbol a) (.call r) c fun l ps c' ↦
      ps = [.mk r ⟨c.offset, c'.offset⟩ []] ∧ c'.offset = c.offset + Text.size l ∧
        a c.rest = some (l, c'.rest) := by
  have hm := h c (Nat.le_refl _)
  have hq : (false || g.kind r == .atomic) = true := by rw [hr]; rfl
  cases ha : a c.rest with
  | none =>
    rw [ha] at hm
    exact .fails (by rw [value_token, ha]; rfl) (.call_fails (by rwa [hq]))
  | some s =>
    rw [ha] at hm
    have hcall := Matches.call (q := false) (n := r) (by rw [hq]; exact hm)
    rw [hr] at hcall
    exact .succeeds (by rw [value_token, ha]; rfl) hcall ⟨rfl, rfl, rfl⟩

theorem agrees_char (x : Char) :
    Agrees g (Parser.char x : Parser σ Unit) (.text [x]) c fun _ ps c' ↦
      ps = [] ∧ c'.offset = c.offset + x.utf8Size ∧ c.rest = x :: c'.rest := by
  refine (agrees_lexeme (a := Scanner.char (· == x)) ?_).bind_pure ?_
  · rw [← Scanner.text_singleton]
    exact recognizes_text [x]
  · rintro l ps c' - ⟨rfl, hoffset, hl⟩
    have hrest := Scanner.exact_char _ hl
    rw [← Scanner.text_singleton] at hl
    obtain ⟨r, -, he⟩ := Option.map_eq_some_iff.1 hl
    obtain ⟨rfl, -⟩ := Prod.mk.inj he
    exact ⟨(), rfl, rfl, hoffset, hrest.symm⟩

/-- A test of what follows agrees with a predicate. -/
theorem agrees_ahead {test : Text → Bool} (h : Decides g false c.rest.length test e) :
    Agrees g (ahead test : Parser σ Unit) (.and e) c fun _ ps c' ↦
      ps = [] ∧ c' = c ∧ test c.rest = true := by
  have hm := h c (Nat.le_refl _)
  cases htest : test c.rest with
  | true =>
    obtain ⟨m, hm⟩ := hm.1 htest
    exact .succeeds (by rw [value_ahead, htest]; rfl) (.and hm) ⟨rfl, rfl, rfl⟩
  | false => exact .fails (by rw [value_ahead, htest]; rfl) (.and_fails (hm.2 htest))

end Lexemes

end EmbeddedCss.Peg
