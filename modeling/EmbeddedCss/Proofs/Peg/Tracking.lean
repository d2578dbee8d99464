import EmbeddedCss.Proofs.Parser.Frontier
import EmbeddedCss.Proofs.Peg.Parsing

/-! # Rules that are tried

To match an expression is to try rules at places: those of an alternative that is given up later, of a
repetition that ends, and of a part that may be missing are tried like any other. Inside of an atomic
rule nothing is tracked, and a silent rule is not tracked itself.

The calls that a parser makes are shown to be the rules that its expression tries, each with its place
and its outcome. As with the agreement of values, this is shown step by step along a parser. -/

namespace EmbeddedCss.Peg

open EmbeddedCss.Parser

variable {σ ν α β : Type} {g : Grammar ν} {c c₁ : Cursor}

/-! ## Tries -/

/-- Matching an expression at a place tries a rule at another place, and not from inside of an atomic
rule. -/
inductive Tries (g : Grammar ν) : Expr ν → Cursor → ν → Cursor → Prop
  | call {n : ν} {c : Cursor} : Tries g (.call n) c n c
  | inside {n m : ν} {c c' : Cursor} : g.kind n ≠ .atomic → Tries g (g.rule n) c m c' →
      Tries g (.call n) c m c'
  | seq_first {a b : Expr ν} {m : ν} {c c' : Cursor} : Tries g a c m c' → Tries g (.seq a b) c m c'
  | seq_second {a b : Expr ν} {m : ν} {c c₁ c' : Cursor} {ps : List (Pair ν)} :
      Matches g false a c (some (ps, c₁)) → Tries g b c₁ m c' → Tries g (.seq a b) c m c'
  | choice_first {a b : Expr ν} {m : ν} {c c' : Cursor} : Tries g a c m c' →
      Tries g (.choice a b) c m c'
  | choice_second {a b : Expr ν} {m : ν} {c c' : Cursor} : Matches g false a c none →
      Tries g b c m c' → Tries g (.choice a b) c m c'
  | star_first {a : Expr ν} {m : ν} {c c' : Cursor} : Tries g a c m c' → Tries g (.star a) c m c'
  | star_next {a : Expr ν} {m : ν} {c c₁ c' : Cursor} {ps : List (Pair ν)} :
      Matches g false a c (some (ps, c₁)) → Tries g (.star a) c₁ m c' → Tries g (.star a) c m c'
  | and {a : Expr ν} {m : ν} {c c' : Cursor} : Tries g a c m c' → Tries g (.and a) c m c'
  | not {a : Expr ν} {m : ν} {c c' : Cursor} : Tries g a c m c' → Tries g (.not a) c m c'

section Tries

variable {a b f : Expr ν} {m n : ν} {c' : Cursor} {ps : List (Pair ν)}

theorem tries_call_iff : Tries g (.call n) c m c' ↔
    m = n ∧ c' = c ∨ g.kind n ≠ .atomic ∧ Tries g (g.rule n) c m c' := by
  constructor
  · intro h
    cases h with
    | call => exact .inl ⟨rfl, rfl⟩
    | inside hkind h => exact .inr ⟨hkind, h⟩
  · rintro (⟨rfl, rfl⟩ | ⟨hkind, h⟩)
    · exact .call
    · exact .inside hkind h

theorem tries_seq_of_fails (h : Matches g false a c none) :
    Tries g (.seq a b) c m c' ↔ Tries g a c m c' := by
  constructor
  · intro ht
    cases ht with
    | seq_first ht => exact ht
    | seq_second ha _ => cases h.deterministic ha
  · exact .seq_first

theorem tries_seq_of_matches (h : Matches g false a c (some (ps, c₁))) :
    Tries g (.seq a b) c m c' ↔ Tries g a c m c' ∨ Tries g b c₁ m c' := by
  constructor
  · intro ht
    cases ht with
    | seq_first ht => exact .inl ht
    | seq_second ha ht =>
      cases h.deterministic ha
      exact .inr ht
  · rintro (ht | ht)
    · exact .seq_first ht
    · exact .seq_second h ht

theorem tries_choice_of_matches {r : List (Pair ν) × Cursor} (h : Matches g false a c (some r)) :
    Tries g (.choice a b) c m c' ↔ Tries g a c m c' := by
  constructor
  · intro ht
    cases ht with
    | choice_first ht => exact ht
    | choice_second ha _ => cases h.deterministic ha
  · exact .choice_first

theorem tries_choice_of_fails (h : Matches g false a c none) :
    Tries g (.choice a b) c m c' ↔ Tries g a c m c' ∨ Tries g b c m c' := by
  constructor
  · intro ht
    cases ht with
    | choice_first ht => exact .inl ht
    | choice_second _ ht => exact .inr ht
  · rintro (ht | ht)
    · exact .choice_first ht
    · exact .choice_second h ht

/-- A common first part is tried in both alternatives, at the same place. -/
theorem tries_factor_iff : Tries g (.choice (.seq a b) (.seq a f)) c m c' ↔
    Tries g (.seq a (.choice b f)) c m c' := by
  constructor
  · intro h
    cases h with
    | choice_first h =>
      cases h with
      | seq_first h => exact .seq_first h
      | seq_second ha h => exact .seq_second ha (.choice_first h)
    | choice_second hfails h =>
      cases h with
      | seq_first h => exact .seq_first h
      | seq_second ha h =>
        refine .seq_second ha (.choice_second ?_ h)
        cases hfails with
        | seq_fails_first ha' => cases ha.deterministic ha'
        | seq_fails_second ha' hb =>
          cases ha.deterministic ha'
          exact hb
  · intro h
    cases h with
    | seq_first h => exact .choice_first (.seq_first h)
    | seq_second ha h =>
      cases h with
      | choice_first h => exact .choice_first (.seq_second ha h)
      | choice_second hb h => exact .choice_second (.seq_fails_second ha hb) (.seq_second ha h)

theorem tries_start_seq_iff (hc : c.offset = 0) :
    Tries g (.seq .start a) c m c' ↔ Tries g a c m c' := by
  rw [tries_seq_of_matches (.start hc)]
  constructor
  · rintro (ht | ht)
    · cases ht
    · exact ht
  · exact .inr

/-- Behind a repetition that takes something, the repetition goes on. -/
theorem tries_star_seq_of_matches (h : Matches g false a c (some (ps, c₁))) :
    Tries g (.seq (.star a) b) c m c' ↔
      Tries g a c m c' ∨ Tries g (.seq (.star a) b) c₁ m c' := by
  constructor
  · intro ht
    cases ht with
    | seq_first ht =>
      cases ht with
      | star_first ht => exact .inl ht
      | star_next ha ht =>
        cases h.deterministic ha
        exact .inr (.seq_first ht)
    | seq_second hstar ht =>
      cases hstar with
      | star_stops ha => cases h.deterministic ha
      | star_goes_on ha hstar =>
        cases h.deterministic ha
        exact .inr (.seq_second hstar ht)
  · rintro (ht | ht)
    · exact .seq_first (.star_first ht)
    · cases ht with
      | seq_first ht => exact .seq_first (.star_next h ht)
      | seq_second hstar ht => exact .seq_second (.star_goes_on h hstar) ht

/-- Where a repetition takes nothing, what follows it is tried at the same place. -/
theorem tries_star_seq_of_fails (h : Matches g false a c none) :
    Tries g (.seq (.star a) b) c m c' ↔ Tries g a c m c' ∨ Tries g b c m c' := by
  rw [tries_seq_of_matches (.star_stops h)]
  constructor
  · rintro (ht | ht)
    · cases ht with
      | star_first ht => exact .inl ht
      | star_next ha _ => cases h.deterministic ha
    · exact .inr ht
  · rintro (ht | ht)
    · exact .inl (.star_first ht)
    · exact .inr ht

end Tries

/-! ## Expressions without tracked rules -/

/-- An expression tries no rules but silent ones. -/
def Untracked (g : Grammar ν) (e : Expr ν) : Prop :=
  ∀ ⦃c n c'⦄, Tries g e c n c' → g.kind n = .silent

section Untracked

variable {a b : Expr ν}

theorem untracked_text (t : Text) : Untracked g (.text t) := by
  intro c n c' h
  cases h

theorem untracked_any : Untracked g .any := by
  intro c n c' h
  cases h

theorem Untracked.choice (ha : Untracked g a) (hb : Untracked g b) :
    Untracked g (.choice a b) := by
  intro c n c' h
  cases h with
  | choice_first h => exact ha h
  | choice_second _ h => exact hb h

theorem Untracked.star (ha : Untracked g a) : Untracked g (.star a) := by
  intro c n c' h
  generalize he : Expr.star a = e at h
  induction h with
  | star_first h =>
    cases he
    exact ha h
  | star_next _ _ ih => exact ih he
  | _ => cases he

theorem Untracked.and (ha : Untracked g a) : Untracked g (.and a) := by
  intro c n c' h
  cases h with
  | and h => exact ha h

theorem Untracked.not (ha : Untracked g a) : Untracked g (.not a) := by
  intro c n c' h
  cases h with
  | not h => exact ha h

theorem Untracked.call {n : ν} (hn : g.kind n = .silent) (h : Untracked g (g.rule n)) :
    Untracked g (.call n) := by
  intro c m c' ht
  rcases tries_call_iff.1 ht with ⟨rfl, -⟩ | ⟨-, ht⟩
  · exact hn
  · exact h ht

end Untracked

/-! ## Tracking -/

/-- Matching an expression at a place tries a rule at an offset, and the rule has an outcome there. -/
def Tried (g : Grammar ν) (e : Expr ν) (c : Cursor) (n : ν) (offset : Nat) (matched : Bool) :
    Prop :=
  ∃ c' r, Tries g e c n c' ∧ c'.offset = offset ∧ Matches g false (.call n) c' r ∧
    r.isSome = matched

theorem tried_of_iff {a b e : Expr ν} {n : ν}
    (h : ∀ c', Tries g e c n c' ↔ Tries g a c n c' ∨ Tries g b c₁ n c') (offset : Nat)
    (matched : Bool) :
    Tried g e c n offset matched ↔ Tried g a c n offset matched ∨ Tried g b c₁ n offset matched := by
  simp only [Tried, h, or_and_right, exists_or]

/-- Some calls are what an expression tries at a place, with `name` for the names of the rules. -/
def Tracks (g : Grammar ν) (name : σ → ν) (calls : List (Call σ)) (e : Expr ν) (c : Cursor) :
    Prop :=
  ∀ n offset matched, g.kind n ≠ .silent →
    (Tried g e c n offset matched ↔ ∃ s, name s = n ∧ ⟨s, offset, matched⟩ ∈ calls)

section Tracks

variable {name : σ → ν} {calls calls' : List (Call σ)} {a b e e' f : Expr ν}

theorem Untracked.tracks (h : Untracked g e) : Tracks g name [] e c := by
  intro n offset matched hn
  constructor
  · rintro ⟨c', r, ht, -⟩
    exact absurd (h ht) hn
  · rintro ⟨s, -, hs⟩
    cases hs

theorem Tracks.congr (h : Tracks g name calls e c)
    (he : ∀ n c', Tries g e' c n c' ↔ Tries g e c n c') : Tracks g name calls e' c := by
  intro n offset matched hn
  rw [← h n offset matched hn]
  simp only [Tried, he]

theorem Tracks.append (ha : Tracks g name calls a c) (hb : Tracks g name calls' b c₁)
    (he : ∀ n c', Tries g e c n c' ↔ Tries g a c n c' ∨ Tries g b c₁ n c') :
    Tracks g name (calls ++ calls') e c := by
  intro n offset matched hn
  rw [tried_of_iff (he n), ha n offset matched hn, hb n offset matched hn]
  simp only [List.mem_append, and_or_left, exists_or]

/-- A call of a rule comes with the calls inside of it, which there are none of if the rule is
atomic. -/
theorem Tracks.call {s : σ} {r : Option (List (Pair ν) × Cursor)}
    (hkind : g.kind (name s) = .normal ∧ Tracks g name calls (g.rule (name s)) c ∨
      g.kind (name s) = .atomic ∧ calls = [])
    (hm : Matches g false (.call (name s)) c r) :
    Tracks g name (⟨s, c.offset, r.isSome⟩ :: calls) (.call (name s)) c := by
  intro n offset matched hn
  constructor
  · rintro ⟨c', r', ht, rfl, hr, rfl⟩
    rcases tries_call_iff.1 ht with ⟨rfl, rfl⟩ | ⟨hatomic, ht⟩
    · cases hm.deterministic hr
      exact ⟨s, rfl, List.mem_cons_self ..⟩
    · rcases hkind with ⟨-, hcalls⟩ | ⟨hkind, -⟩
      · obtain ⟨s', hs', hmem⟩ := (hcalls n _ _ hn).1 ⟨c', r', ht, rfl, hr, rfl⟩
        exact ⟨s', hs', List.mem_cons_of_mem _ hmem⟩
      · exact absurd hkind hatomic
  · rintro ⟨s', rfl, hmem⟩
    rcases List.mem_cons.1 hmem with hs | hmem
    · obtain ⟨rfl, rfl, rfl⟩ := Call.mk.inj hs
      exact ⟨c, r, .call, rfl, hm, rfl⟩
    · rcases hkind with ⟨hkind, hcalls⟩ | ⟨-, rfl⟩
      · obtain ⟨c', r', ht, ho, hr⟩ := (hcalls _ offset matched hn).2 ⟨s', rfl, hmem⟩
        refine ⟨c', r', .inside ?_ ht, ho, hr⟩
        rw [hkind]
        exact RuleKind.noConfusion
      · cases hmem

/-- A silent rule is tracked as what it matches. -/
theorem Tracks.call_silent {n : ν} (hn : g.kind n = .silent) (h : Tracks g name calls (g.rule n) c) :
    Tracks g name calls (.call n) c := by
  intro m offset matched hm
  rw [← h m offset matched hm]
  constructor
  · rintro ⟨c', r, ht, hr⟩
    rcases tries_call_iff.1 ht with ⟨rfl, -⟩ | ⟨-, ht⟩
    · exact absurd hn hm
    · exact ⟨c', r, ht, hr⟩
  · rintro ⟨c', r, ht, hr⟩
    refine ⟨c', r, .inside ?_ ht, hr⟩
    rw [hn]
    exact RuleKind.noConfusion

/-! ### Parsers -/

variable {p p' : Parser σ α} {Q : α → List (Pair ν) → Cursor → Prop}

theorem Tracks.bind {k : α → Parser σ β} (hp : Tracks g name (p.calls c) e c)
    (h : Agrees g p e c Q)
    (hk : ∀ {a ps c₁}, Behind c c₁ → Q a ps c₁ → Tracks g name ((k a).calls c₁) e' c₁) :
    Tracks g name ((p >>= k).calls c) (.seq e e') c := by
  rw [calls_bind]
  cases h with
  | fails hv hm =>
    rw [hv, Option.elim_none, List.append_nil]
    exact hp.congr fun n c' ↦ tries_seq_of_fails hm
  | succeeds hv hm hQ =>
    rw [hv, Option.elim_some]
    exact hp.append (hk hm.behind hQ) fun n c' ↦ tries_seq_of_matches hm

/-- To make a value of what was read takes no calls. -/
theorem Tracks.bind_pure {k : α → Parser σ β} (hp : Tracks g name (p.calls c) e c)
    (hk : ∀ a, ∃ b, k a = pure b) : Tracks g name ((p >>= k).calls c) e c := by
  rw [calls_bind]
  cases p.value c with
  | none =>
    rw [Option.elim_none, List.append_nil]
    exact hp
  | some r =>
    obtain ⟨b, hb⟩ := hk r.1
    rw [Option.elim_some, hb, calls_pure, List.append_nil]
    exact hp

theorem Tracks.orElse (hp : Tracks g name (p.calls c) e c) (h : Agrees g p e c Q)
    (hp' : Tracks g name (p'.calls c) e' c) :
    Tracks g name ((Parser.orElse p p').calls c) (.choice e e') c := by
  rw [calls_orElse]
  cases h with
  | fails hv hm =>
    rw [hv, Option.elim_none]
    exact hp.append hp' fun n c' ↦ tries_choice_of_fails hm
  | succeeds hv hm hQ =>
    rw [hv, Option.elim_some, List.append_nil]
    exact hp.congr fun n c' ↦ tries_choice_of_matches hm

theorem Tracks.optional (hp : Tracks g name (p.calls c) e c) :
    Tracks g name ((Parser.optional p).calls c) e.opt c := by
  rw [calls_optional]
  refine hp.congr fun n c' ↦ ⟨?_, .choice_first⟩
  intro ht
  cases ht with
  | choice_first ht => exact ht
  | choice_second _ ht => cases ht

/-- A parser with a name makes a call of its own. -/
theorem Tracks.named {s : σ} (hkind : g.kind (name s) = .normal)
    (hp : Tracks g name (p.calls c) (g.rule (name s)) c)
    (h : Agrees g (Parser.named s p) (.call (name s)) c Q) :
    Tracks g name ((Parser.named s p).calls c) (.call (name s)) c := by
  rw [calls_named, ← value_named s]
  cases h with
  | fails hv hm =>
    rw [hv]
    exact .call (.inl ⟨hkind, hp⟩) hm
  | succeeds hv hm hQ =>
    rw [hv]
    exact .call (.inl ⟨hkind, hp⟩) hm

/-- Two alternatives may be told apart behind what they have in common. -/
theorem Tracks.factor (h : Tracks g name calls (.seq e (.choice e' f)) c) :
    Tracks g name calls (.choice (.seq e e') (.seq e f)) c := h.congr fun _ _ ↦ tries_factor_iff

theorem tracks_char (x : Char) :
    Tracks g name ((Parser.char x : Parser σ Unit).calls c) (.text [x]) c := by
  rw [calls_char]
  exact (untracked_text _).tracks

theorem tracks_lexeme {a : Scanner} (h : Untracked g e) :
    Tracks g name ((lexeme a : Parser σ Text).calls c) e c := by
  rw [calls_lexeme]
  exact h.tracks

/-- A lexeme of an atomic rule is one call. -/
theorem tracks_token {s : σ} {a : Scanner} (hkind : g.kind (name s) = .atomic)
    (ha : Recognizes g true c.rest.length a (g.rule (name s))) :
    Tracks g name ((token s a).calls c) (.call (name s)) c := by
  rw [token, calls_named, ← value_named s, ← token]
  cases agrees_token (σ := σ) hkind ha with
  | fails hv hm =>
    rw [hv]
    exact .call (.inr ⟨hkind, rfl⟩) hm
  | succeeds hv hm hQ =>
    rw [hv]
    exact .call (.inr ⟨hkind, rfl⟩) hm

end Tracks

end EmbeddedCss.Peg
