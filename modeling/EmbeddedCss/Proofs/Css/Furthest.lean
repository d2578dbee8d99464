import EmbeddedCss.Proofs.Css.Acceptance
import EmbeddedCss.Proofs.Css.Tracing
import EmbeddedCss.Proofs.Peg.Tracking
import Mathlib.Order.Bounds.Basic

/-! # Errors stand at the furthest failure

A text that cannot be read is complained about at one place. The calls of the parser are first shown
to be the tries of the grammar: each rule that is tracked, wherever it is tried while the text is
matched, in parts that are given up as well as in those that are kept. The place of the error is then
the furthest one at which such a rule fails, and the rules that the message lists fail there. -/

namespace EmbeddedCss.Css

open Peg

/-- The rule that a symbol stands for. -/
def Symbol.ruleName : Symbol → RuleName
  | endOfText => .endOfInput
  | stylesheet => .stylesheet
  | comment => .commentNode
  | rule => .rule
  | selector => .selector
  | block => .block
  | atRule => .atRule
  | atName => .atName
  | afterName => .atAfterName
  | params => .atParams
  | between => .atBetween
  | decl => .decl
  | property => .prop
  | colon => .declBetween
  | value => .value
  | trailing => .valueTrailing

/-! ## Calls of the grammar -/

theorem untracked_ws : Untracked grammar (.call .ws) :=
  .call rfl <| (untracked_text _).choice <| (untracked_text _).choice <| (untracked_text _).choice <|
    (untracked_text _).choice (untracked_text _)

theorem untracked_gap : Untracked grammar (.call .gap) :=
  .call rfl (untracked_ws.choice (untracked_text _)).star

section Items

open EmbeddedCss.Parser

variable {css : Text} {c : Cursor}

theorem tracks_comment :
    Tracks grammar Symbol.ruleName ((Item.comment <$> token .comment Lexeme.loneComment).calls c)
      (.call .commentNode) c := by
  rw [calls_map]
  exact tracks_token (s := Symbol.comment) rfl Lexeme.recognizes_loneComment

theorem tracks_decl (hc : css.StandsAt c.offset c.rest) :
    Tracks grammar Symbol.ruleName (Grammar.decl.calls c) (.call .decl) c := by
  refine .named (s := Symbol.decl) rfl ?_ (agrees_decl hc)
  refine .bind (tracks_token rfl Lexeme.recognizes_property)
    (agrees_token rfl Lexeme.recognizes_property) ?_
  rintro property _ c₁ - -
  refine .bind (tracks_token rfl Lexeme.recognizes_colon)
    (agrees_token rfl Lexeme.recognizes_colon) ?_
  rintro colon _ c₂ - -
  refine .bind (tracks_token rfl Lexeme.recognizes_prelude).optional
    (agrees_token rfl Lexeme.recognizes_prelude).optional ?_
  rintro value _ c₃ - -
  exact .bind_pure (tracks_token rfl Lexeme.recognizes_trailing).optional fun _ ↦ ⟨_, rfl⟩

-- the blocks of an item hold shorter texts than the item
variable {body : Parser Symbol Body}
  (hbody : ∀ c' : Cursor, css.StandsAt c'.offset c'.rest → c'.rest.length < c.rest.length →
    Agrees grammar body (.call .body) c' (BodyMatched css c'))
  (hcalls : ∀ c' : Cursor, css.StandsAt c'.offset c'.rest → c'.rest.length < c.rest.length →
    Tracks grammar Symbol.ruleName (body.calls c') (.call .body) c')

include hbody hcalls

theorem tracks_block {c₀ : Cursor} (hc : css.StandsAt c₀.offset c₀.rest)
    (hlength : c₀.rest.length ≤ c.rest.length) :
    Tracks grammar Symbol.ruleName ((Grammar.block body).calls c₀) (.call .block) c₀ := by
  refine .named (s := Symbol.block) rfl ?_ (agrees_block hbody hc hlength)
  refine .bind (tracks_char '{') (agrees_char '{') ?_
  rintro _ _ c₁ h₁ ⟨-, -, hrest⟩
  have hlt : c₁.rest.length < c.rest.length := by
    rw [hrest] at hlength
    exact hlength
  refine .bind (hcalls c₁ (h₁.standsAt hc) hlt) (hbody c₁ (h₁.standsAt hc) hlt) ?_
  rintro b _ c₂ - -
  exact .bind_pure (tracks_char '}') fun _ ↦ ⟨_, rfl⟩

theorem tracks_rule (hc : css.StandsAt c.offset c.rest) :
    Tracks grammar Symbol.ruleName ((Grammar.rule body).calls c) (.call .rule) c := by
  refine .named (s := Symbol.rule) rfl ?_ (agrees_rule hbody hc)
  refine .bind (tracks_token rfl Lexeme.recognizes_prelude)
    (agrees_token rfl Lexeme.recognizes_prelude) ?_
  rintro selector _ c₁ h₁ -
  refine .bind (tracks_lexeme untracked_ws.star) (agrees_lexeme Lexeme.recognizes_spaces) ?_
  rintro between _ c₂ h₂ -
  exact .bind_pure (tracks_block hbody hcalls (h₂.standsAt (h₁.standsAt hc))
    (Nat.le_trans h₂.length_le h₁.length_le)) fun _ ↦ ⟨_, rfl⟩

omit hbody hcalls in
theorem tracks_params : Tracks grammar Symbol.ruleName (Grammar.params.calls c)
    (.inOrder [.call .atAfterName, .call .atParams]) c := by
  refine .bind (tracks_token rfl Lexeme.recognizes_spaces)
    (agrees_token rfl Lexeme.recognizes_spaces) ?_
  rintro space _ c₁ - -
  exact .bind_pure (tracks_token rfl Lexeme.recognizes_prelude) fun _ ↦ ⟨_, rfl⟩

theorem tracks_atEnd {c₀ : Cursor} (hc : css.StandsAt c₀.offset c₀.rest)
    (hlength : c₀.rest.length ≤ c.rest.length) :
    Tracks grammar Symbol.ruleName ((Grammar.atEnd body).calls c₀)
      (.firstOf [.inOrder [.call .atBetween, .call .block],
        .inOrder [.call .atBetween, .and (RuleName.lit ';')]]) c₀ := by
  refine .factor (.bind (tracks_token rfl Lexeme.recognizes_spaces)
    (agrees_token rfl Lexeme.recognizes_spaces) ?_)
  rintro space _ c₁ h₁ -
  have hc₁ := h₁.standsAt hc
  have hlength₁ := Nat.le_trans h₁.length_le hlength
  refine .orElse (.bind_pure (tracks_block hbody hcalls hc₁ hlength₁) fun _ ↦ ⟨_, rfl⟩)
    ((agrees_block hbody hc₁ hlength₁).bind_pure (R := fun _ _ _ ↦ True)
      fun _ _ ↦ ⟨_, rfl, trivial⟩) ?_
  refine .bind_pure ?_ fun _ ↦ ⟨_, rfl⟩
  rw [calls_ahead]
  exact (untracked_text _).and.tracks

theorem tracks_atRule (hc : css.StandsAt c.offset c.rest) :
    Tracks grammar Symbol.ruleName ((Grammar.atRule body).calls c) (.call .atRule) c := by
  refine .named (s := Symbol.atRule) rfl ?_ (agrees_atRule hbody hc)
  refine .bind (tracks_char '@') (agrees_char '@') ?_
  rintro _ _ c₁ h₁ -
  refine .bind (tracks_token rfl Lexeme.recognizes_atName)
    (agrees_token rfl Lexeme.recognizes_atName) ?_
  rintro name _ c₂ h₂ -
  have hc₂ := h₂.standsAt (h₁.standsAt hc)
  refine .bind tracks_params.optional (agrees_params hc₂) ?_
  rintro params _ c₃ h₃ -
  refine .bind_pure (tracks_atEnd hbody hcalls (h₃.standsAt hc₂)
    ((h₁.trans h₂).trans h₃).length_le).optional ?_
  rintro (_ | ⟨between, _ | b⟩)
  · exact ⟨_, rfl⟩
  · exact ⟨_, rfl⟩
  · exact ⟨_, rfl⟩

theorem tracks_item (hc : css.StandsAt c.offset c.rest) :
    Tracks grammar Symbol.ruleName ((Grammar.item body).calls c) (.call .node) c :=
  .call_silent rfl <| (tracks_atRule hbody hcalls hc).orElse (agrees_atRule hbody hc) <|
    tracks_comment.orElse (agrees_comment hc) <|
      (tracks_rule hbody hcalls hc).orElse (agrees_rule hbody hc) (tracks_decl hc)

end Items

section Body

open EmbeddedCss.Parser

variable {fuel : Nat} {c : Cursor} {gap r : Text}

/-- A body calls an item behind the first gap, and goes on behind it. -/
theorem calls_body_succ (hgap : Lexeme.gap c.rest = some (gap, r)) :
    (Grammar.body (fuel + 1)).calls c =
      (Grammar.item (Grammar.body fuel)).calls (advance c gap r) ++
        ((Grammar.item (Grammar.body fuel)).value (advance c gap r)).elim []
          fun x ↦ (Grammar.body fuel).calls x.2 := by
  have hv : (lexeme Lexeme.gap : Parser Symbol Text).value c = some (gap, advance c gap r) := by
    rw [value_lexeme, hgap]
    rfl
  rw [Grammar.body, calls_bind, calls_lexeme, hv, Option.elim_some, List.nil_append, calls_bind,
    calls_optional, value_optional, Option.elim_some]
  cases (Grammar.item (Grammar.body fuel)).value (advance c gap r) with
  | none => rfl
  | some x =>
    change _ ++ (Grammar.body fuel >>= fun rest ↦ pure (Body.item gap x.1 rest)).calls x.2 = _
    rw [calls_bind]
    cases (Grammar.body fuel).value x.2 with
    | none => rw [Option.elim_none, List.append_nil, Option.elim_some]
    | some y => rw [Option.elim_some, calls_pure, List.append_nil, Option.elim_some]

theorem value_body_succ (hgap : Lexeme.gap c.rest = some (gap, r)) :
    (Grammar.body (fuel + 1)).value c =
      ((Grammar.item (Grammar.body fuel)).value (advance c gap r)).elim
        (some (.done gap, advance c gap r))
        fun x ↦ ((Grammar.body fuel).value x.2).map fun y ↦ (.item gap x.1 y.1, y.2) := by
  have hv : (lexeme Lexeme.gap : Parser Symbol Text).value c = some (gap, advance c gap r) := by
    rw [value_lexeme, hgap]
    rfl
  rw [Grammar.body, value_bind, hv, Option.bind_some, value_bind, value_optional, Option.bind_some]
  cases (Grammar.item (Grammar.body fuel)).value (advance c gap r) with
  | none => rfl
  | some x =>
    change (Grammar.body fuel >>= fun rest ↦ pure (Body.item gap x.1 rest)).value x.2 = _
    rw [value_bind, Option.elim_some]
    cases (Grammar.body fuel).value x.2 with
    | none => rfl
    | some y => rfl

end Body

/-- With fuel for every character, the calls of a body are the tries of its rule. -/
theorem tracks_body {css : Text} {fuel : Nat} {c : Cursor} (hc : css.StandsAt c.offset c.rest)
    (hfuel : c.rest.length < fuel) :
    Tracks grammar Symbol.ruleName ((Grammar.body fuel).calls c) (.call .body) c := by
  refine .call_silent rfl ?_
  induction fuel generalizing c with
  | zero => omega
  | succ fuel ih =>
    obtain ⟨gap, r, hgap⟩ : ∃ gap r, Lexeme.gap c.rest = some (gap, r) := ⟨_, _, rfl⟩
    have hm₁ : Matches grammar false (.call .gap) c (some ([], advance c gap r)) := by
      have h := Lexeme.recognizes_gap (q := false) c (Nat.le_refl _)
      rwa [hgap] at h
    have hle := hm₁.behind.length_le
    have hc₁ := hm₁.behind.standsAt hc
    have hbody : ∀ c' : Cursor, css.StandsAt c'.offset c'.rest →
        c'.rest.length < (advance c gap r).rest.length →
        Agrees grammar (Grammar.body fuel) (.call .body) c' (BodyMatched css c') :=
      fun c' hc' hlength ↦ agrees_body hc' (by omega)
    have hcalls := tracks_item hbody
      (fun c' hc' hlength ↦ .call_silent rfl (ih hc' (by omega))) hc₁
    have hstep : Tracks grammar Symbol.ruleName
        ((Grammar.item (Grammar.body fuel)).calls (advance c gap r))
        (.seq (.call .gap) (.call .node)) c :=
      untracked_gap.tracks.append hcalls fun n c' ↦ tries_seq_of_matches hm₁
    rw [calls_body_succ hgap]
    cases agrees_item hbody hc₁ with
    | fails hv₂ hm₂ =>
      rw [hv₂]
      exact hstep.append untracked_gap.tracks fun n c' ↦
        tries_star_seq_of_fails (.seq_fails_second hm₁ hm₂)
    | @succeeds i _ c₂ hv₂ hm₂ hi =>
      have hlt := (reads_of_value_item (fun h ↦ reads_of_value_body fuel h) hv₂).length_lt
        (Lexeme.head?_of_gap hgap)
      have hrest := ih (hm₂.behind.standsAt hc₁) (by omega)
      rw [hv₂]
      exact hstep.append hrest fun n c' ↦ tries_star_seq_of_matches (.seq hm₁ hm₂)

/-- The calls of a parse are the tries of the rule of stylesheets. -/
theorem tracks_stylesheet (css : Text) :
    Tracks grammar Symbol.ruleName ((Grammar.stylesheet css.length).calls ⟨css, 0⟩)
      (.call .stylesheet) ⟨css, 0⟩ := by
  refine .named (s := Symbol.stylesheet) rfl ?_ (agrees_stylesheet css)
  refine .congr ?_ fun n c' ↦ tries_start_seq_iff rfl
  have hstart := Text.standsAt_zero css
  have hfuel := Nat.lt_succ_self css.length
  refine .bind (tracks_body hstart hfuel) (agrees_body hstart hfuel) ?_
  rintro b _ c₁ - -
  refine .bind_pure (.named (s := Symbol.endOfText) rfl ?_ agrees_endOfInput) fun _ ↦ ⟨_, rfl⟩
  exact untracked_any.not.tracks

/-! ## Errors -/

/-- The calls that are made while a text is read. -/
def callsOf (css : Text) : List (Call Symbol) := (Grammar.stylesheet css.length).calls ⟨css, 0⟩

/-- While a text is matched as a stylesheet, a rule that is tracked is tried at an offset and fails
there. -/
def FailsAt (css : Text) (n : RuleName) (offset : Nat) : Prop :=
  n.kind ≠ .silent ∧ Tried grammar (.call .stylesheet) ⟨css, 0⟩ n offset false

theorem Symbol.kind_ruleName_ne_silent (s : Symbol) : s.ruleName.kind ≠ .silent := by
  cases s <;> exact RuleKind.noConfusion

theorem failsAt_iff {css : Text} {n : RuleName} {offset : Nat} :
    FailsAt css n offset ↔ ∃ s : Symbol, s.ruleName = n ∧ ⟨s, offset, false⟩ ∈ callsOf css := by
  constructor
  · rintro ⟨hn, h⟩
    exact (tracks_stylesheet css n offset false hn).1 h
  · rintro ⟨s, rfl, hs⟩
    have hn := s.kind_ruleName_ne_silent
    exact ⟨hn, (tracks_stylesheet css _ offset false hn).2 ⟨s, rfl, hs⟩⟩

/-- The error of a text is that at the frontier of its calls, and the frontier is the furthest of the
calls that failed. -/
theorem exists_frontier_of_parse_eq_error {css : Text} {d : Diagnostic} (h : parse css = .error d) :
    ∃ f : Frontier Symbol, d = errorAt css f ∧
      (∀ x ∈ callsOf css, x.matched = false → x.offset ≤ f.offset) ∧ f.expected ≠ [] ∧
      ∀ s ∈ f.expected, ⟨s, f.offset, false⟩ ∈ callsOf css := by
  simp only [parse, parseBody] at h
  split at h
  · cases h
  · rename_i hv
    obtain rfl := Except.error.inj h
    -- the stylesheet itself was tried, and failed at the start
    have hfailed : ⟨.stylesheet, 0, false⟩ ∈ callsOf css := by
      rw [callsOf, Grammar.stylesheet, Parser.calls_named, ← Parser.value_named .stylesheet]
      rw [← Grammar.stylesheet, Parser.value, hv]
      exact List.mem_cons_self ..
    exact ⟨_, rfl, Frontier.ofTrace_furthest hfailed rfl⟩

/-- The error of a text that cannot be read covers one byte from a place of the text on. No tracked
rule fails further behind, and the message lists rules that fail there, at least one. -/
theorem parse_error_furthest {css : Text} {d : Diagnostic} (h : parse css = .error d) :
    ∃ p, d.span = ⟨p, p + 1⟩ ∧ p ≤ Text.size css ∧ css.IsPlace p ∧
      IsGreatest {offset | ∃ n, FailsAt css n offset} p ∧
      ∃ listed : List Symbol, listed ≠ [] ∧ (∀ s ∈ listed, FailsAt css s.ruleName p) ∧
        d.message = "invalid CSS: expected ".toList ++ alternatives (listed.map Symbol.name) := by
  obtain ⟨s, hs, -, -⟩ := exists_of_parse_eq_error h
  obtain ⟨f, rfl, hfurthest, hne, hfailed⟩ := exists_frontier_of_parse_eq_error h
  obtain ⟨x, hx⟩ := List.exists_mem_of_ne_nil _ hne
  refine ⟨f.offset, rfl, ?_, ⟨s, hs⟩, ⟨⟨x.ruleName, ?_⟩, ?_⟩,
    Symbol.all.filter (· ∈ f.expected), ?_, ?_, rfl⟩
  · rw [hs.size_eq]
    exact Nat.le_add_right ..
  · exact failsAt_iff.2 ⟨x, rfl, hfailed x hx⟩
  · rintro offset ⟨n, hn⟩
    obtain ⟨y, -, hy⟩ := failsAt_iff.1 hn
    exact hfurthest _ hy rfl
  · apply List.ne_nil_of_mem (a := x)
    exact List.mem_filter.2 ⟨x.mem_all, decide_eq_true hx⟩
  · intro y hy
    exact failsAt_iff.2 ⟨y, rfl, hfailed y (of_decide_eq_true (List.mem_filter.1 hy).2)⟩

/-- A declaration without a colon in a block: behind the name both a block and the colon fail. -/
theorem parse_error_furthest_decl :
    ∃ d, parse "a\x7bb\x7d".toList = .error d ∧
      d.message = "invalid CSS: expected block or decl_between".toList ∧
      IsGreatest {offset | ∃ n, FailsAt "a\x7bb\x7d".toList n offset} 3 := by
  have h : parse "a\x7bb\x7d".toList = .error ⟨⟨3, 4⟩,
      "invalid CSS: expected block or decl_between".toList, some unmatchedHint⟩ := by
    decide +kernel
  obtain ⟨p, hp, -, -, hgreatest, -⟩ := parse_error_furthest h
  obtain rfl : 3 = p := congrArg Span.start hp
  exact ⟨_, h, rfl, hgreatest⟩

end EmbeddedCss.Css
