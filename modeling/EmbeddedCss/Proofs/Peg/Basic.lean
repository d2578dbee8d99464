import EmbeddedCss.Parser.Basic
import EmbeddedCss.Proofs.Text.Place

/-! # Parsing expression grammars

A grammar gives each name an expression, and what an expression matches is told by a relation: of
two alternatives the second counts only where the first fails, a repetition takes as much as it can
and gives nothing back, and a predicate reads nothing. There is no implicit white space.

A match leaves pairs of a name and the span that it covers, with the pairs inside it. Silent rules
leave no pair of their own, and no pair is left inside of an atomic rule or a predicate.

A match is determined by the place where it is tried, and it goes on in the same text. -/

namespace EmbeddedCss.Peg

variable {ν : Type}

/-- A parsing expression over rules that are named by `ν`. -/
inductive Expr (ν : Type) where
  /-- Nothing. -/
  | empty
  /-- One character of a class. -/
  | char (p : Char → Bool)
  /-- A given text. -/
  | text (t : Text)
  /-- The start of the input. -/
  | start
  /-- One expression after the other. -/
  | seq (a b : Expr ν)
  /-- The first alternative, or else the second. -/
  | choice (a b : Expr ν)
  /-- An expression as often as it matches. -/
  | star (a : Expr ν)
  /-- A place where an expression matches. -/
  | and (a : Expr ν)
  /-- A place where an expression fails. -/
  | not (a : Expr ν)
  /-- A rule of the grammar. -/
  | call (name : ν)

namespace Expr

/-- Any character. -/
def any : Expr ν := char fun _ ↦ true

/-- An expression where it matches. -/
def opt (a : Expr ν) : Expr ν := choice a empty

/-- An expression as often as it matches, at least once. -/
def plus (a : Expr ν) : Expr ν := seq a (star a)

/-- Some expressions one after the other. -/
def inOrder : List (Expr ν) → Expr ν
  | [] => empty
  | [a] => a
  | a :: rest => seq a (inOrder rest)

/-- The first of some expressions that matches. -/
def firstOf : List (Expr ν) → Expr ν
  | [] => not empty
  | [a] => a
  | a :: rest => choice a (firstOf rest)

end Expr

/-- What a rule leaves where it matches. -/
inductive RuleKind where
  /-- A pair with the pairs inside it. -/
  | normal
  /-- A pair with nothing inside it. -/
  | atomic
  /-- No pair but those inside it. -/
  | silent
deriving DecidableEq

/-- A grammar with rules that are named by `ν`. -/
structure Grammar (ν : Type) where
  /-- What a rule leaves. -/
  kind : ν → RuleKind
  /-- What a rule matches. -/
  rule : ν → Expr ν

/-- What a rule leaves where it matches: its name, the span that it covers, and what the rules
inside it leave. -/
inductive Pair (ν : Type) where
  | mk (name : ν) (span : Span) (inner : List (Pair ν))

/-- The span that a pair covers. -/
def Pair.span : Pair ν → Span
  | .mk _ s _ => s

/-- The pairs that a rule leaves, from those inside it. Inside of an atomic rule, which is `quiet`,
none are left. -/
def RuleKind.pairs (quiet : Bool) (name : ν) (span : Span) (inner : List (Pair ν)) :
    RuleKind → List (Pair ν)
  | .silent => inner
  | .normal | .atomic => if quiet then inner else [.mk name span inner]

/-- The place behind the first part of what is left to read. -/
def advance (c : Cursor) (l r : Text) : Cursor := ⟨r, c.offset + Text.size l⟩

/-- What comes of an expression at a place: the pairs and the place behind the match, or a failure.
Inside of an atomic rule no pairs are left, and the expression is matched in quiet. -/
inductive Matches (g : Grammar ν) :
    Bool → Expr ν → Cursor → Option (List (Pair ν) × Cursor) → Prop
  | empty {q : Bool} {c : Cursor} : Matches g q .empty c (some ([], c))
  | char {q : Bool} {p : Char → Bool} {c : Cursor} {x : Char} {r : Text} :
      c.rest = x :: r → p x = true → Matches g q (.char p) c (some ([], advance c [x] r))
  | char_fails {q : Bool} {p : Char → Bool} {c : Cursor} :
      (∀ x r, c.rest = x :: r → p x = false) → Matches g q (.char p) c none
  | text {q : Bool} {t : Text} {c : Cursor} {r : Text} :
      c.rest = t ++ r → Matches g q (.text t) c (some ([], advance c t r))
  | text_fails {q : Bool} {t : Text} {c : Cursor} :
      (∀ r, c.rest ≠ t ++ r) → Matches g q (.text t) c none
  | start {q : Bool} {c : Cursor} : c.offset = 0 → Matches g q .start c (some ([], c))
  | start_fails {q : Bool} {c : Cursor} : c.offset ≠ 0 → Matches g q .start c none
  | seq {q : Bool} {a b : Expr ν} {c c₁ c₂ : Cursor} {ps qs : List (Pair ν)} :
      Matches g q a c (some (ps, c₁)) → Matches g q b c₁ (some (qs, c₂)) →
      Matches g q (.seq a b) c (some (ps ++ qs, c₂))
  | seq_fails_first {q : Bool} {a b : Expr ν} {c : Cursor} :
      Matches g q a c none → Matches g q (.seq a b) c none
  | seq_fails_second {q : Bool} {a b : Expr ν} {c c₁ : Cursor} {ps : List (Pair ν)} :
      Matches g q a c (some (ps, c₁)) → Matches g q b c₁ none → Matches g q (.seq a b) c none
  | choice_first {q : Bool} {a b : Expr ν} {c : Cursor} {m : List (Pair ν) × Cursor} :
      Matches g q a c (some m) → Matches g q (.choice a b) c (some m)
  | choice_second {q : Bool} {a b : Expr ν} {c : Cursor} {r : Option (List (Pair ν) × Cursor)} :
      Matches g q a c none → Matches g q b c r → Matches g q (.choice a b) c r
  | star_stops {q : Bool} {a : Expr ν} {c : Cursor} :
      Matches g q a c none → Matches g q (.star a) c (some ([], c))
  | star_goes_on {q : Bool} {a : Expr ν} {c c₁ c₂ : Cursor} {ps qs : List (Pair ν)} :
      Matches g q a c (some (ps, c₁)) → Matches g q (.star a) c₁ (some (qs, c₂)) →
      Matches g q (.star a) c (some (ps ++ qs, c₂))
  | and {q : Bool} {a : Expr ν} {c : Cursor} {m : List (Pair ν) × Cursor} :
      Matches g q a c (some m) → Matches g q (.and a) c (some ([], c))
  | and_fails {q : Bool} {a : Expr ν} {c : Cursor} :
      Matches g q a c none → Matches g q (.and a) c none
  | not {q : Bool} {a : Expr ν} {c : Cursor} :
      Matches g q a c none → Matches g q (.not a) c (some ([], c))
  | not_fails {q : Bool} {a : Expr ν} {c : Cursor} {m : List (Pair ν) × Cursor} :
      Matches g q a c (some m) → Matches g q (.not a) c none
  | call {q : Bool} {n : ν} {c c' : Cursor} {ps : List (Pair ν)} :
      Matches g (q || g.kind n == .atomic) (g.rule n) c (some (ps, c')) →
      Matches g q (.call n) c (some ((g.kind n).pairs q n ⟨c.offset, c'.offset⟩ ps, c'))
  | call_fails {q : Bool} {n : ν} {c : Cursor} :
      Matches g (q || g.kind n == .atomic) (g.rule n) c none → Matches g q (.call n) c none

section Matches

variable {g : Grammar ν} {q : Bool} {e : Expr ν} {c : Cursor}

/-- At each place an expression matches in one way at most. -/
theorem Matches.deterministic {r r' : Option (List (Pair ν) × Cursor)} (h : Matches g q e c r)
    (h' : Matches g q e c r') : r = r' := by
  induction h generalizing r' with
  | empty => cases h'; rfl
  | char hc hx =>
    cases h' with
    | char hc' => cases hc.symm.trans hc'; rfl
    | char_fails hall => simp [hall _ _ hc] at hx
  | char_fails hall =>
    cases h' with
    | char hc hx => simp [hall _ _ hc] at hx
    | char_fails => rfl
  | text hc =>
    cases h' with
    | text hc' => cases List.append_cancel_left (hc.symm.trans hc'); rfl
    | text_fails hne => exact absurd hc (hne _)
  | text_fails hne =>
    cases h' with
    | text hc => exact absurd hc (hne _)
    | text_fails => rfl
  | start hc =>
    cases h' with
    | start => rfl
    | start_fails hc' => exact absurd hc hc'
  | start_fails hc =>
    cases h' with
    | start hc' => exact absurd hc' hc
    | start_fails => rfl
  | seq _ _ iha ihb =>
    cases h' with
    | seq ha' hb' => cases iha ha'; cases ihb hb'; rfl
    | seq_fails_first ha' => cases iha ha'
    | seq_fails_second ha' hb' => cases iha ha'; cases ihb hb'
  | seq_fails_first _ iha =>
    cases h' with
    | seq ha' _ => cases iha ha'
    | seq_fails_first => rfl
    | seq_fails_second ha' _ => cases iha ha'
  | seq_fails_second _ _ iha ihb =>
    cases h' with
    | seq ha' hb' => cases iha ha'; cases ihb hb'
    | seq_fails_first ha' => cases iha ha'
    | seq_fails_second => rfl
  | choice_first _ iha =>
    cases h' with
    | choice_first ha' => exact iha ha'
    | choice_second ha' _ => cases iha ha'
  | choice_second _ _ iha ihb =>
    cases h' with
    | choice_first ha' => cases iha ha'
    | choice_second _ hb' => exact ihb hb'
  | star_stops _ ih =>
    cases h' with
    | star_stops => rfl
    | star_goes_on ha' _ => cases ih ha'
  | star_goes_on _ _ iha ihs =>
    cases h' with
    | star_stops ha' => cases iha ha'
    | star_goes_on ha' hs' => cases iha ha'; cases ihs hs'; rfl
  | and _ ih =>
    cases h' with
    | and => rfl
    | and_fails ha' => cases ih ha'
  | and_fails _ ih =>
    cases h' with
    | and ha' => cases ih ha'
    | and_fails => rfl
  | not _ ih =>
    cases h' with
    | not => rfl
    | not_fails ha' => cases ih ha'
  | not_fails _ ih =>
    cases h' with
    | not ha' => cases ih ha'
    | not_fails => rfl
  | call _ ih =>
    cases h' with
    | call hr' => cases ih hr'; rfl
    | call_fails hr' => cases ih hr'
  | call_fails _ ih =>
    cases h' with
    | call hr' => cases ih hr'
    | call_fails => rfl

/-- A place is as far as another in the same text, or further. -/
def Behind (c c' : Cursor) : Prop := ∃ l, c.rest = l ++ c'.rest ∧ c'.offset = c.offset + Text.size l

theorem Behind.refl (c : Cursor) : Behind c c := ⟨[], rfl, rfl⟩

theorem Behind.trans {c c₁ c₂ : Cursor} (h₁ : Behind c c₁) (h₂ : Behind c₁ c₂) : Behind c c₂ := by
  obtain ⟨l, hl, ho⟩ := h₁
  obtain ⟨l', hl', ho'⟩ := h₂
  refine ⟨l ++ l', ?_, ?_⟩
  · rw [hl, hl', List.append_assoc]
  · rw [ho', ho, Text.size_append, Nat.add_assoc]

theorem behind_advance {c : Cursor} {l r : Text} (h : c.rest = l ++ r) : Behind c (advance c l r) :=
  ⟨l, h, rfl⟩

/-- A match ends at its place or behind it. -/
theorem Matches.behind {ps : List (Pair ν)} {c' : Cursor} (h : Matches g q e c (some (ps, c'))) :
    Behind c c' := by
  generalize hm : some (ps, c') = r at h
  induction h generalizing ps c' with
  | empty | start | star_stops | and | not =>
    cases hm
    exact .refl _
  | char hc => cases hm; exact behind_advance hc
  | text hc => cases hm; exact behind_advance hc
  | seq _ _ iha ihb =>
    cases hm
    exact (iha rfl).trans (ihb rfl)
  | choice_first _ iha => exact iha hm
  | choice_second _ _ _ ihb => exact ihb hm
  | star_goes_on _ _ iha ihs =>
    cases hm
    exact (iha rfl).trans (ihs rfl)
  | call _ ih =>
    cases hm
    exact ih rfl
  | char_fails | text_fails | start_fails | seq_fails_first | seq_fails_second | and_fails
  | not_fails | call_fails => cases hm

theorem Behind.length_le {c c' : Cursor} (h : Behind c c') : c'.rest.length ≤ c.rest.length := by
  obtain ⟨l, hl, -⟩ := h
  rw [hl, List.length_append]
  omega

/-- What is left at a place stands in the text at its offset. -/
theorem Behind.standsAt {t : Text} {c c' : Cursor} (h : Behind c c')
    (hc : t.StandsAt c.offset c.rest) : t.StandsAt c'.offset c'.rest := by
  obtain ⟨l, hl, ho⟩ := h
  rw [hl] at hc
  rw [ho]
  exact hc.advance

end Matches

end EmbeddedCss.Peg
