import EmbeddedCss.Proofs.Css.Exactness
import EmbeddedCss.Proofs.Text.Place

/-! # Where attempts are made

A parser makes its attempts at places of the text that it reads, also those that it gives up later.
The combinators keep this, and so the grammar of stylesheets has it. The frontier of a trace is the
start of the text or the place of an attempt, so that an error is reported between two characters of
the text or at one of its ends. The hint of the error depends on what stands there. -/

namespace EmbeddedCss

/-- An offset in front of a character of a text, or at its end. -/
def Text.IsPlace (t : Text) (offset : Nat) : Prop := ∃ s, t.StandsAt offset s

variable {σ α β : Type}

/-! ## Traces -/

mutual

/-- An attempt and those inside of it were made at offsets with a property. -/
def Attempt.MadeAt (P : Nat → Prop) : Attempt σ → Prop
  | .mk _ offset _ inner => P offset ∧ Attempt.AllMadeAt P inner

/-- Some attempts and those inside of them were made at offsets with a property. -/
def Attempt.AllMadeAt (P : Nat → Prop) : List (Attempt σ) → Prop
  | [] => True
  | a :: rest => a.MadeAt P ∧ Attempt.AllMadeAt P rest

end

theorem Attempt.AllMadeAt.append {P : Nat → Prop} {as bs : List (Attempt σ)}
    (ha : AllMadeAt P as) (hb : AllMadeAt P bs) : AllMadeAt P (as ++ bs) := by
  induction as with
  | nil => exact hb
  | cons a as ih => exact ⟨ha.1, ih ha.2⟩

mutual

/-- A frontier moves on to the place of an attempt. -/
theorem Attempt.MadeAt.replay {P : Nat → Prop} {f : Frontier σ} (hf : P f.offset) :
    {a : Attempt σ} → a.MadeAt P → P (a.replay f).offset
  | .mk symbol offset matched inner, ⟨hoffset, hinner⟩ => by
    have hg := Attempt.AllMadeAt.replayAll hf hinner
    rw [Attempt.replay]
    split
    · exact hg
    · unfold Frontier.blame
      split
      · exact hoffset
      · split
        · exact hoffset
        · exact hg

theorem Attempt.AllMadeAt.replayAll {P : Nat → Prop} {f : Frontier σ} (hf : P f.offset) :
    {as : List (Attempt σ)} → Attempt.AllMadeAt P as → P (Attempt.replayAll as f).offset
  | [], _ => hf
  | _ :: _, ⟨ha, has⟩ => Attempt.AllMadeAt.replayAll (ha.replay hf) has

end

/-! ## Parsers -/

namespace Parser

/-- A parser that starts at a place of a text makes its attempts at places of the text, and stops at
one. -/
def StaysIn (t : Text) (p : Parser σ α) : Prop := ∀ c : Cursor, t.StandsAt c.offset c.rest →
  Attempt.AllMadeAt t.IsPlace (p c).trace ∧
    ∀ r, value p c = some r → t.StandsAt r.2.offset r.2.rest

variable {t : Text} {p q : Parser σ α}

theorem staysIn_pure (a : α) : (pure a : Parser σ α).StaysIn t := by
  rintro c hc
  refine ⟨trivial, ?_⟩
  rintro r ⟨⟩
  exact hc

theorem staysIn_fail : (fail : Parser σ α).StaysIn t := fun _ _ ↦ ⟨trivial, nofun⟩

theorem StaysIn.bind {f : α → Parser σ β} (hp : p.StaysIn t) (hf : ∀ a, (f a).StaysIn t) :
    (p >>= f).StaysIn t := by
  intro c hc
  obtain ⟨htrace, hvalue⟩ := hp c hc
  simp only [value, Bind.bind] at hvalue ⊢
  split
  · refine ⟨htrace, ?_⟩
    rintro r ⟨⟩
  · rename_i a c' hr
    obtain ⟨htrace', hvalue'⟩ := hf a c' (hvalue _ hr)
    exact ⟨htrace.append htrace', hvalue'⟩

theorem StaysIn.map (f : α → β) (hp : p.StaysIn t) : (f <$> p).StaysIn t :=
  hp.bind fun _ ↦ staysIn_pure _

theorem StaysIn.orElse (hp : p.StaysIn t) (hq : q.StaysIn t) : (orElse p q).StaysIn t := by
  intro c hc
  obtain ⟨htrace, hvalue⟩ := hp c hc
  obtain ⟨htrace', hvalue'⟩ := hq c hc
  simp only [value, Parser.orElse] at hvalue hvalue' ⊢
  split
  · exact ⟨htrace.append htrace', hvalue'⟩
  · exact ⟨htrace, hvalue⟩

theorem StaysIn.optional (hp : p.StaysIn t) : (optional p).StaysIn t :=
  (hp.map _).orElse (staysIn_pure _)

theorem StaysIn.named (symbol : σ) (hp : p.StaysIn t) : (named symbol p).StaysIn t := by
  intro c hc
  obtain ⟨htrace, hvalue⟩ := hp c hc
  exact ⟨⟨⟨⟨_, hc⟩, htrace⟩, trivial⟩, hvalue⟩

theorem staysIn_lexeme {a : Scanner} (ha : a.Exact) : (lexeme a : Parser σ Text).StaysIn t := by
  intro c hc
  refine ⟨trivial, ?_⟩
  rintro ⟨l, c'⟩ hl
  rw [value_lexeme, Option.map_eq_some_iff] at hl
  obtain ⟨⟨l', r⟩, hl, he⟩ := hl
  obtain ⟨rfl, rfl⟩ := Prod.mk.inj he
  rw [← ha hl] at hc
  exact hc.advance

theorem staysIn_token {a : Scanner} (symbol : σ) (ha : a.Exact) : (token symbol a).StaysIn t :=
  (staysIn_lexeme ha).named symbol

theorem staysIn_char (x : Char) : (char x : Parser σ Unit).StaysIn t :=
  (staysIn_lexeme (Scanner.exact_char _)).map _

theorem staysIn_ahead (test : Text → Bool) : (ahead test : Parser σ Unit).StaysIn t := by
  intro c hc
  refine ⟨trivial, ?_⟩
  rintro ⟨_, c'⟩ hr
  simp only [value_ahead, Option.ite_none_right_eq_some, Option.some.injEq, Prod.mk.injEq,
    true_and] at hr
  rwa [← hr.2]

end Parser

/-! ## Stylesheets -/

namespace Css

open EmbeddedCss.Parser

section Grammar

variable {t : Text} {body : Parser Symbol Body} (hbody : body.StaysIn t)

include hbody

theorem staysIn_block : (Grammar.block body).StaysIn t :=
  .named _ <| (staysIn_char _).bind fun _ ↦ hbody.bind fun _ ↦
    (staysIn_char _).bind fun _ ↦ staysIn_pure _

theorem staysIn_rule : (Grammar.rule body).StaysIn t :=
  .named _ <| (staysIn_token _ Lexeme.productive_prelude.1).bind fun _ ↦
    (staysIn_lexeme Lexeme.exact_spaces).bind fun _ ↦
      (staysIn_block hbody).bind fun _ ↦ staysIn_pure _

omit hbody in
theorem staysIn_params : Grammar.params.StaysIn t :=
  (staysIn_token _ Lexeme.exact_spaces).bind fun _ ↦
    (staysIn_token _ Lexeme.productive_prelude.1).bind fun _ ↦ staysIn_pure _

theorem staysIn_atEnd : (Grammar.atEnd body).StaysIn t :=
  (staysIn_token _ Lexeme.exact_spaces).bind fun _ ↦
    ((staysIn_block hbody).bind fun _ ↦ staysIn_pure _).orElse
      ((staysIn_ahead _).bind fun _ ↦ staysIn_pure _)

theorem staysIn_atRule : (Grammar.atRule body).StaysIn t := by
  refine .named _ <| (staysIn_char _).bind fun _ ↦
    (staysIn_token _ Lexeme.productive_atName.1).bind fun name ↦
      staysIn_params.optional.bind fun params ↦ (staysIn_atEnd hbody).optional.bind ?_
  rintro (_ | ⟨between, _ | b⟩)
  · exact staysIn_pure _
  · exact staysIn_pure _
  · exact staysIn_pure _

omit hbody in
theorem staysIn_decl : Grammar.decl.StaysIn t :=
  .named _ <| (staysIn_token _ Lexeme.productive_property.1).bind fun _ ↦
    (staysIn_token _ Lexeme.exact_colon).bind fun _ ↦
      (staysIn_token _ Lexeme.productive_prelude.1).optional.bind fun _ ↦
        (staysIn_token _ Lexeme.productive_trailing.1).optional.bind fun _ ↦ staysIn_pure _

theorem staysIn_item : (Grammar.item body).StaysIn t :=
  (staysIn_atRule hbody).orElse <|
    ((staysIn_token _ Lexeme.productive_loneComment.1).map _).orElse <|
      (staysIn_rule hbody).orElse staysIn_decl

end Grammar

theorem staysIn_body (t : Text) (fuel : Nat) : (Grammar.body fuel).StaysIn t := by
  induction fuel with
  | zero => exact staysIn_fail
  | succ fuel ih =>
    refine (staysIn_lexeme Lexeme.exact_gap).bind fun gap ↦ (staysIn_item ih).optional.bind ?_
    rintro (_ | item)
    · exact staysIn_pure _
    · exact ih.bind fun _ ↦ staysIn_pure _

theorem staysIn_stylesheet (t : Text) (length : Nat) : (Grammar.stylesheet length).StaysIn t :=
  .named _ <| (staysIn_body t _).bind fun _ ↦
    ((staysIn_ahead _).named _).bind fun _ ↦ staysIn_pure _

/-- The error of a text that cannot be read covers one byte from a place of the text on, and its
hint is that for what stands there. -/
theorem exists_of_parse_eq_error {css : Text} {d : Diagnostic} (h : parse css = .error d) :
    ∃ s, css.StandsAt d.span.start s ∧ d.span.stop = d.span.start + 1 ∧ d.hint = hintFor s := by
  simp only [parse, parseBody] at h
  split at h
  · cases h
  · obtain rfl := Except.error.inj h
    have htrace := (staysIn_stylesheet css css.length ⟨css, 0⟩ (Text.standsAt_zero css)).1
    obtain ⟨s, hs⟩ := htrace.replayAll (f := {}) ⟨css, Text.standsAt_zero css⟩
    refine ⟨s, hs, rfl, ?_⟩
    rw [errorAt, Frontier.ofTrace, hs.dropBytes_eq]

/-! ## Hints -/

/-- The hint for a place where a brace is closed that was not opened. -/
def unmatchedHint : Text := "this `\x7d` has no matching `\x7b`".toList

/-- The hint for the end of a text where something is still open. -/
def unclosedHint : Text := "a block, string, or comment is not closed".toList

theorem unclosedHint_ne_unmatchedHint : unclosedHint ≠ unmatchedHint := by decide +kernel

/-- There is no hint for other characters than a closing brace. -/
theorem hintFor_cons_of_ne {c : Char} (hc : c ≠ '}') (s : Text) : hintFor (c :: s) = none := by
  simp [hintFor]

theorem hintFor_eq_unmatched_iff (s : Text) :
    hintFor s = some unmatchedHint ↔ ∃ r, s = '}' :: r := by
  cases s with
  | nil => exact iff_of_false (mt Option.some.inj unclosedHint_ne_unmatchedHint) (by simp)
  | cons c s =>
    by_cases hc : c = '}'
    · subst hc
      exact iff_of_true rfl ⟨s, rfl⟩
    · rw [hintFor_cons_of_ne hc]
      simp [hc]

theorem hintFor_eq_unclosed_iff (s : Text) : hintFor s = some unclosedHint ↔ s = [] := by
  cases s with
  | nil => exact iff_of_true rfl rfl
  | cons c s =>
    by_cases hc : c = '}'
    · subst hc
      exact iff_of_false (mt Option.some.inj unclosedHint_ne_unmatchedHint.symm) (by simp)
    · rw [hintFor_cons_of_ne hc]
      simp

end Css

end EmbeddedCss
