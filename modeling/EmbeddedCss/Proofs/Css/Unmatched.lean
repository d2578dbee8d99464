import EmbeddedCss.Proofs.Css.Furthest
import EmbeddedCss.Proofs.Css.Pieces

/-! # Braces without a partner

The hint that a closing brace has no partner is given wherever an error stands at such a brace, and it
is right if no block is open there. The items that could be read close the blocks that they open, and
whatever is tried behind them is tried inside of a block or without passing a brace. So the hint is
right exactly if no brace that counts stands between the end of the items and the error.

To see this, each call is compared with the pieces in front of it, along the parser: what one parser
keeps is stated once, with a rule for every combinator. The name of a property is not made of pieces,
which takes a condition on the names and colons of declarations. -/

namespace EmbeddedCss.Css

open EmbeddedCss.Parser

/-! ## Moving in pieces -/

/-- From one place some whole pieces lead to another. -/
structure Moves (c : Cursor) (ps : List Text) (c' : Cursor) : Prop where
  /-- The pieces are the first ones. -/
  pieces_eq : pieces c.rest = ps ++ pieces c'.rest
  /-- The offset grows by their size. -/
  offset_eq : c'.offset = c.offset + Text.size ps.flatten

namespace Moves

variable {c c₁ c₂ : Cursor} {ps qs : List Text}

theorem refl (c : Cursor) : Moves c [] c := ⟨rfl, rfl⟩

theorem trans (h : Moves c ps c₁) (h' : Moves c₁ qs c₂) : Moves c (ps ++ qs) c₂ where
  pieces_eq := by rw [h.pieces_eq, h'.pieces_eq, List.append_assoc]
  offset_eq := by
    rw [h'.offset_eq, h.offset_eq, List.flatten_append, Text.size_append, Nat.add_assoc]

theorem rest_eq (h : Moves c ps c₁) : c.rest = ps.flatten ++ c₁.rest := by
  rw [← (flatten_pieces c.rest).1, h.pieces_eq, List.flatten_append, (flatten_pieces c₁.rest).1]

theorem standsAt {css : Text} (h : Moves ⟨css, 0⟩ ps c) : css.StandsAt c.offset c.rest := by
  refine ⟨ps.flatten, h.rest_eq, ?_⟩
  rw [h.offset_eq, Nat.zero_add]

theorem piecesBefore_eq (h : Moves c ps c₁) (k : Nat) :
    piecesBefore (Text.size ps.flatten + k) c.rest = ps ++ piecesBefore k c₁.rest :=
  piecesBefore_add h.pieces_eq k

end Moves

/-- An offset between two pieces of a text, or at one of its ends. -/
def IsCut (css : Text) (offset : Nat) : Prop :=
  ∃ ps ∈ (pieces css).inits, Text.size ps.flatten = offset

instance (css : Text) (offset : Nat) : Decidable (IsCut css offset) :=
  inferInstanceAs (Decidable (∃ ps ∈ _, _))

/-- Some pieces lead to a cut behind a place, and they make up what is between. -/
theorem exists_moves_of_isCut {css l r : Text} {us : List Text} {c : Cursor}
    (hc : Moves ⟨css, 0⟩ us c) (hl : l ++ r = c.rest) (hne : l ≠ [])
    (hcut : IsCut css (c.offset + Text.size l)) :
    ∃ ps, ps.flatten = l ∧ Moves c ps ⟨r, c.offset + Text.size l⟩ := by
  obtain ⟨ps, hps, hsize⟩ := hcut
  obtain ⟨qs, hqs⟩ := (List.mem_inits _ _).1 hps
  rw [hc.offset_eq, Nat.zero_add] at hsize
  -- the cut is behind the place, and so it is reached from there
  obtain ⟨ms, rfl, hrest⟩ : ∃ ms, ps = us ++ ms ∧ pieces c.rest = ms ++ qs := by
    rcases List.append_eq_append_iff.1 (hqs.trans hc.pieces_eq) with ⟨ms, rfl, -⟩ | h
    · have hpos := Text.size_pos hne
      rw [List.flatten_append, Text.size_append] at hsize
      omega
    · exact h
  rw [List.flatten_append, Text.size_append, Nat.add_left_cancel_iff] at hsize
  have hflatten : ms.flatten ++ qs.flatten = l ++ r := by
    rw [hl, ← List.flatten_append, ← hrest, (flatten_pieces c.rest).1]
  obtain rfl := Text.eq_of_append_eq_append hflatten hsize
  obtain rfl := List.append_cancel_left hflatten
  refine ⟨ms, rfl, ?_, rfl⟩
  rw [hrest, pieces_flatten_of_append hrest]

/-! ## Calls between pieces -/

/-- A name that a call reads holds no brace that counts, and a colon that it reads stands outside of
strings and groups. -/
def IsApart (css : Text) (x : Call Symbol) : Prop :=
  (x.symbol = .property → ∀ name ∈ Lexeme.property (Text.dropBytes x.offset css),
    Quiet (piecesBefore (Text.size name.1) (Text.dropBytes x.offset css))) ∧
  (x.symbol = .colon → x.matched = true → IsCut css x.offset)

instance (css : Text) (x : Call Symbol) : Decidable (IsApart css x) :=
  inferInstanceAs (Decidable (_ ∧ _))

/-- A call is made behind pieces with a property. -/
def MadeBehind (c : Cursor) (Q : List Text → Prop) (x : Call Symbol) : Prop :=
  ∃ k, x.offset = c.offset + k ∧ Q (piecesBefore k c.rest)

theorem madeBehind_self {c : Cursor} {Q : List Text → Prop} (hQ : Q []) {s : Symbol}
    {matched : Bool} : MadeBehind c Q ⟨s, c.offset, matched⟩ := by
  refine ⟨0, rfl, ?_⟩
  rw [piecesBefore_zero]
  exact hQ

theorem MadeBehind.mono {c : Cursor} {Q Q' : List Text → Prop} {x : Call Symbol}
    (h : MadeBehind c Q x) (hQ : ∀ ps, Q ps → Q' ps) : MadeBehind c Q' x := by
  obtain ⟨k, hoffset, h⟩ := h
  exact ⟨k, hoffset, hQ _ h⟩

theorem MadeBehind.of_moves {c c₁ : Cursor} {Q Q' : List Text → Prop} {ps : List Text}
    {x : Call Symbol} (h : MadeBehind c₁ Q' x) (hc : Moves c ps c₁)
    (hQ : ∀ qs, Q' qs → Q (ps ++ qs)) : MadeBehind c Q x := by
  obtain ⟨k, hoffset, h⟩ := h
  refine ⟨Text.size ps.flatten + k, ?_, ?_⟩
  · rw [hoffset, hc.offset_eq, Nat.add_assoc]
  · rw [hc.piecesBefore_eq]
    exact hQ _ h

/-- Between two pieces of a text a parser makes its calls behind pieces with the property `Q`, and
reads pieces with the property `R`. -/
def Keeps {α : Type} (css : Text) (p : Parser Symbol α) (Q R : List Text → Prop) : Prop :=
  ∀ ⦃us c⦄, Moves ⟨css, 0⟩ us c → (∀ x ∈ p.calls c, IsApart css x) →
    (∀ x ∈ p.calls c, MadeBehind c Q x) ∧
      ∀ a c', p.value c = some (a, c') → ∃ ps, Moves c ps c' ∧ R ps

section Keeps

variable {α β : Type} {css : Text} {p q : Parser Symbol α} {Q Q' R R' : List Text → Prop}

theorem keeps_pure {a : α} (hR : R []) : Keeps css (pure a : Parser Symbol α) Q R := by
  intro us c hc hapart
  refine ⟨nofun, ?_⟩
  rintro _ _ ⟨⟩
  exact ⟨[], .refl c, hR⟩

theorem Keeps.mono (hp : Keeps css p Q R) (hR : ∀ ps, R ps → R' ps) : Keeps css p Q R' := by
  intro us c hc hapart
  obtain ⟨hcalls, hvalue⟩ := hp hc hapart
  refine ⟨hcalls, fun a c' h ↦ ?_⟩
  obtain ⟨ps, hps, h⟩ := hvalue a c' h
  exact ⟨ps, hps, hR ps h⟩

/-- The calls of the second parser are made behind what the first one reads. -/
theorem Keeps.bind {f : α → Parser Symbol β} {S : List Text → Prop} (hp : Keeps css p Q R)
    (hf : ∀ a, Keeps css (f a) Q' R') (hQ : ∀ ps qs, R ps → Q' qs → Q (ps ++ qs))
    (hS : ∀ ps qs, R ps → R' qs → S (ps ++ qs)) : Keeps css (p >>= f) Q S := by
  intro us c hc hapart
  rw [calls_bind] at hapart ⊢
  obtain ⟨hapart, hapart'⟩ := List.forall_mem_append.1 hapart
  obtain ⟨hcalls, hvalue⟩ := hp hc hapart
  rw [value_bind, List.forall_mem_append]
  cases hv : p.value c with
  | none => exact ⟨⟨hcalls, nofun⟩, nofun⟩
  | some r =>
    rw [hv] at hapart'
    obtain ⟨ps, hps, hR⟩ := hvalue r.1 r.2 hv
    obtain ⟨hcalls', hvalue'⟩ := hf r.1 (hc.trans hps) hapart'
    refine ⟨⟨hcalls, fun x hx ↦ ?_⟩, fun b c' h ↦ ?_⟩
    · exact (hcalls' x hx).of_moves hps fun qs ↦ hQ ps qs hR
    · obtain ⟨qs, hqs, hR'⟩ := hvalue' b c' h
      exact ⟨ps ++ qs, hps.trans hqs, hS ps qs hR hR'⟩

/-- To make a value of what was read takes no calls. -/
theorem Keeps.bind_pure {f : α → Parser Symbol β} (hp : Keeps css p Q R)
    (hf : ∀ a, ∃ b, f a = pure b) : Keeps css (p >>= f) Q R := by
  have hpure (a : α) : Keeps css (f a) (fun _ ↦ False) (· = []) := by
    obtain ⟨b, hb⟩ := hf a
    rw [hb]
    exact keeps_pure rfl
  refine hp.bind hpure (fun _ _ _ ↦ False.elim) ?_
  rintro ps _ hR rfl
  rwa [List.append_nil]

theorem Keeps.orElse (hp : Keeps css p Q R) (hq : Keeps css q Q R) :
    Keeps css (Parser.orElse p q) Q R := by
  intro us c hc hapart
  rw [calls_orElse] at hapart ⊢
  obtain ⟨hapart, hapart'⟩ := List.forall_mem_append.1 hapart
  obtain ⟨hcalls, hvalue⟩ := hp hc hapart
  rw [value_orElse, List.forall_mem_append]
  cases hv : p.value c with
  | none =>
    rw [hv] at hapart'
    obtain ⟨hcalls', hvalue'⟩ := hq hc hapart'
    exact ⟨⟨hcalls, hcalls'⟩, hvalue'⟩
  | some r =>
    rw [hv] at hvalue
    exact ⟨⟨hcalls, nofun⟩, hvalue⟩

theorem Keeps.map (f : α → β) (hp : Keeps css p Q R) : Keeps css (f <$> p) Q R := by
  intro us c hc hapart
  rw [calls_map] at hapart ⊢
  obtain ⟨hcalls, hvalue⟩ := hp hc hapart
  refine ⟨hcalls, ?_⟩
  rintro b c' h
  rw [value_map, Option.map_eq_some_iff] at h
  obtain ⟨⟨a, c₁⟩, hv, heq⟩ := h
  obtain ⟨-, rfl⟩ := Prod.mk.inj heq
  exact hvalue a _ hv

theorem Keeps.optional (hp : Keeps css p Q R) (hR : R []) :
    Keeps css (Parser.optional p) Q R := (hp.map some).orElse (keeps_pure hR)

/-- A call by its name is made where a parser starts. -/
theorem Keeps.named (s : Symbol) (hp : Keeps css p Q R) (hQ : Q []) :
    Keeps css (Parser.named s p) Q R := by
  intro us c hc hapart
  rw [calls_named] at hapart ⊢
  obtain ⟨hcalls, hvalue⟩ := hp hc (List.forall_mem_cons.1 hapart).2
  exact ⟨List.forall_mem_cons.2 ⟨madeBehind_self hQ, hcalls⟩, hvalue⟩

theorem keeps_lexeme {a : Scanner} (ha : ∀ ⦃s l r⦄, a s = some (l, r) →
    ∃ ps, ps.flatten = l ∧ pieces s = ps ++ pieces r ∧ R ps) :
    Keeps css (lexeme a : Parser Symbol Text) Q R := by
  intro us c hc hapart
  refine ⟨nofun, ?_⟩
  rintro l c' h
  rw [value_lexeme, Option.map_eq_some_iff] at h
  obtain ⟨⟨l', r⟩, hl, heq⟩ := h
  cases heq
  obtain ⟨ps, rfl, hps, hR⟩ := ha hl
  exact ⟨ps, ⟨hps, rfl⟩, hR⟩

theorem keeps_token {a : Scanner} (s : Symbol) (ha : a.IsCalm) (hQ : Q []) :
    Keeps css (token s a) Q Quiet := (keeps_lexeme ha).named s hQ

/-- A character that opens nothing closed is a piece. -/
theorem keeps_char {x : Char} (hx : ∀ t, Lexeme.closed (x :: t) = none) :
    Keeps css (char x : Parser Symbol Unit) Q (· = [[x]]) := by
  refine (keeps_lexeme ?_).map _
  rintro (_ | ⟨y, t⟩) l r h
  · cases h
  · obtain ⟨hy, heq⟩ := Option.ite_none_right_eq_some.1 h
    obtain rfl := beq_iff_eq.1 hy
    cases heq
    exact ⟨[[y]], rfl, pieces_single (hx t), rfl⟩

theorem keeps_ahead (test : Text → Bool) : Keeps css (ahead test : Parser Symbol Unit) Q Quiet := by
  intro us c hc hapart
  refine ⟨nofun, ?_⟩
  rintro _ c' h
  obtain ⟨-, heq⟩ := Option.ite_none_right_eq_some.1 h
  cases heq
  exact ⟨[], .refl c, nofun⟩

end Keeps

/-! ## Items -/

section Items

variable {css : Text}

/-- Behind the colon a declaration is made of pieces. -/
theorem keeps_afterName (property : Text) : Keeps css
    (do
      let colon ← token .colon Lexeme.colon
      let value ← optional (token .value Lexeme.prelude)
      let trailing ← optional (token .trailing Lexeme.trailing)
      return Item.decl property colon (value.getD [] ++ trailing.getD []) : Parser Symbol Item)
    QuietOrDeep Quiet := by
  refine (keeps_token _ Lexeme.isCalm_colon quietOrDeep_nil).bind (fun colon ↦ ?_)
    (fun _ _ ↦ .of_append) (fun _ _ ↦ .append)
  refine ((keeps_token _ Lexeme.isCalm_prelude quietOrDeep_nil).optional nofun).bind
    (fun value ↦ ?_) (fun _ _ ↦ .of_append) (fun _ _ ↦ .append)
  exact ((keeps_token _ Lexeme.isCalm_trailing quietOrDeep_nil).optional nofun).bind_pure
    fun trailing ↦ ⟨_, rfl⟩

/-- A name with a colon behind it is made of pieces, if the colon is not part of one. -/
theorem exists_moves_of_property {us : List Text} {c : Cursor} {l r : Text}
    (hc : Moves ⟨css, 0⟩ us c) (hl : Lexeme.property c.rest = some (l, r))
    (hquiet : Quiet (piecesBefore (Text.size l) c.rest))
    (hcut : IsCut css (c.offset + Text.size l)) :
    ∃ ps, ps.flatten = l ∧ Moves c ps ⟨r, c.offset + Text.size l⟩ ∧ Quiet ps := by
  obtain ⟨ps, rfl, hps⟩ := exists_moves_of_isCut hc (Lexeme.productive_property.1 hl)
    (Lexeme.productive_property.2 hl) hcut
  have hbefore := hps.piecesBefore_eq 0
  rw [Nat.add_zero, piecesBefore_zero, List.append_nil] at hbefore
  rw [hbefore] at hquiet
  exact ⟨ps, rfl, hps, hquiet⟩

theorem keeps_decl : Keeps css Grammar.decl QuietOrDeep Quiet := by
  refine .named _ ?_ quietOrDeep_nil
  intro us c hc hapart
  rw [calls_bind, calls_token, value_token] at hapart ⊢
  rw [value_bind, value_token, List.forall_mem_append, List.forall_mem_singleton]
  rw [List.forall_mem_append, List.forall_mem_singleton] at hapart
  obtain ⟨hname, hapart⟩ := hapart
  cases hl : Lexeme.property c.rest with
  | none => exact ⟨⟨madeBehind_self quietOrDeep_nil, nofun⟩, nofun⟩
  | some p =>
    obtain ⟨l, r⟩ := p
    have hquiet : Quiet (piecesBefore (Text.size l) c.rest) := by
      have h := hname.1 rfl
      rw [hc.standsAt.dropBytes_eq] at h
      exact h (l, r) hl
    rw [hl] at hapart
    simp only [Option.map_some, Option.elim_some, Option.bind_some] at hapart ⊢
    cases hcolon : Lexeme.colon r with
    | none =>
      -- the name may end inside of a string or a group, and nothing is tried behind it
      rw [calls_bind, value_bind, calls_token, value_token]
      simp only [hcolon, Option.isSome_none, Option.map_none, Option.elim_none, List.append_nil,
        List.forall_mem_singleton]
      exact ⟨⟨madeBehind_self quietOrDeep_nil, Text.size l, rfl, .inl hquiet⟩, nofun⟩
    | some q =>
      have hcut : IsCut css (c.offset + Text.size l) := by
        rw [calls_bind, calls_token] at hapart
        simp only [hcolon, Option.isSome_some] at hapart
        exact (List.forall_mem_cons.1 hapart).1.2 rfl rfl
      obtain ⟨ps, rfl, hps, hquiet⟩ := exists_moves_of_property hc hl hquiet hcut
      obtain ⟨hcalls, hvalue⟩ := keeps_afterName ps.flatten (hc.trans hps) hapart
      refine ⟨⟨madeBehind_self quietOrDeep_nil, fun x hx ↦ ?_⟩, fun i c' h ↦ ?_⟩
      · exact (hcalls x hx).of_moves hps fun _ ↦ .of_append hquiet
      · obtain ⟨qs, hqs, hquiet'⟩ := hvalue i c' h
        exact ⟨ps ++ qs, hps.trans hqs, hquiet.append hquiet'⟩

variable {body : Parser Symbol Body} (hbody : Keeps css body Rises Balanced)

include hbody

theorem keeps_block : Keeps css (Grammar.block body) QuietOrDeep Balanced := by
  refine .named _ ?_ quietOrDeep_nil
  have hclose (b : Body) : Keeps css (char '}' >>= fun _ ↦ pure b : Parser Symbol Body) Rises
      (· = [['}']]) := (keeps_char (closed_brace (by decide))).bind_pure fun _ ↦ ⟨b, rfl⟩
  have hinner : Keeps css (do let b ← body; char '}'; return b : Parser Symbol Body) Rises
      fun ps ↦ ∃ v, Balanced v ∧ ps = v ++ [['}']] := by
    refine hbody.bind hclose (fun _ _ ↦ .of_append) ?_
    rintro ps _ hp rfl
    exact ⟨ps, hp, rfl⟩
  refine (keeps_char (closed_brace (by decide))).bind (fun _ ↦ hinner) ?_ ?_
  · rintro _ qs rfl hq
    exact .inr hq.deep_cons
  · rintro _ _ rfl ⟨v, hv, rfl⟩
    exact hv.block

theorem keeps_rule : Keeps css (Grammar.rule body) QuietOrDeep Balanced := by
  refine .named _ ?_ quietOrDeep_nil
  refine (keeps_token _ Lexeme.isCalm_prelude quietOrDeep_nil).bind (fun selector ↦ ?_)
    (fun _ _ ↦ .of_append) (fun _ _ hp ↦ hp.balanced.append)
  refine (keeps_lexeme Lexeme.isCalm_spaces).bind (fun between ↦ ?_)
    (fun _ _ ↦ .of_append) (fun _ _ hp ↦ hp.balanced.append)
  exact (keeps_block hbody).bind_pure fun _ ↦ ⟨_, rfl⟩

omit hbody in
theorem keeps_params : Keeps css Grammar.params QuietOrDeep Quiet := by
  refine (keeps_token _ Lexeme.isCalm_spaces quietOrDeep_nil).bind (fun space ↦ ?_)
    (fun _ _ ↦ .of_append) (fun _ _ ↦ .append)
  exact (keeps_token _ Lexeme.isCalm_prelude quietOrDeep_nil).bind_pure fun _ ↦ ⟨_, rfl⟩

theorem keeps_atEnd : Keeps css (Grammar.atEnd body) QuietOrDeep Balanced := by
  refine (keeps_token _ Lexeme.isCalm_spaces quietOrDeep_nil).bind (fun space ↦ ?_)
    (fun _ _ ↦ .of_append) (fun _ _ hp ↦ hp.balanced.append)
  refine ((keeps_block hbody).bind_pure fun _ ↦ ⟨_, rfl⟩).orElse ?_
  exact ((keeps_ahead _).mono fun _ ↦ Quiet.balanced).bind_pure fun _ ↦ ⟨_, rfl⟩

theorem keeps_atRule : Keeps css (Grammar.atRule body) QuietOrDeep Balanced := by
  refine .named _ ?_ quietOrDeep_nil
  have hat : Keeps css (char '@' : Parser Symbol Unit) QuietOrDeep Quiet := by
    refine (keeps_char (Lexeme.closed_eq_none (by decide))).mono ?_
    rintro _ rfl
    exact quiet_single (by decide)
  refine hat.bind (fun _ ↦ ?_) (fun _ _ ↦ .of_append) (fun _ _ hp ↦ hp.balanced.append)
  refine (keeps_token _ Lexeme.isCalm_atName quietOrDeep_nil).bind (fun name ↦ ?_)
    (fun _ _ ↦ .of_append) (fun _ _ hp ↦ hp.balanced.append)
  refine (keeps_params.optional nofun).bind (fun params ↦ ?_)
    (fun _ _ ↦ .of_append) (fun _ _ hp ↦ hp.balanced.append)
  refine ((keeps_atEnd hbody).optional (fun _ ↦ rfl)).bind_pure ?_
  rintro (_ | ⟨between, _ | b⟩)
  · exact ⟨_, rfl⟩
  · exact ⟨_, rfl⟩
  · exact ⟨_, rfl⟩

theorem keeps_item : Keeps css (Grammar.item body) QuietOrDeep Balanced :=
  (keeps_atRule hbody).orElse <|
    (((keeps_token _ Lexeme.isCalm_loneComment quietOrDeep_nil).map _).mono
      fun _ ↦ Quiet.balanced).orElse <|
      (keeps_rule hbody).orElse (keeps_decl.mono fun _ ↦ Quiet.balanced)

end Items

/-! ## Bodies -/

/-- Some pieces end inside of a block that they open, or go no further than to a place that a parser
passes, but for pieces that hold no brace. -/
def DeepOrPassed {α : Type} (p : Parser Symbol α) (c : Cursor) (ps : List Text) : Prop :=
  Deep ps ∨ ∃ vs zs, ps = vs ++ zs ∧ Balanced vs ∧ Quiet zs ∧
    ∀ a c', p.value c = some (a, c') → ∃ ys, Moves c (vs ++ ys) c'

/-- What a parser reads at a place is made of pieces that close the blocks that they open. -/
def ReadsBalanced {α : Type} (p : Parser Symbol α) (c : Cursor) : Prop :=
  ∀ a c', p.value c = some (a, c') → ∃ ps, Moves c ps c' ∧ Balanced ps

section DeepOrPassed

variable {α β : Type} {p : Parser Symbol α} {q : Parser Symbol β} {c c₁ : Cursor}
  {ps qs : List Text}

theorem DeepOrPassed.rises (h : DeepOrPassed p c ps) : Rises ps := by
  rcases h with ⟨m, h⟩ | ⟨vs, zs, rfl, hvs, hzs, -⟩
  · exact ⟨m + 1, h⟩
  · exact ⟨0, hvs.append hzs.balanced⟩

/-- What passes no brace starts where the parser does. -/
theorem QuietOrDeep.deepOrPassed (h : QuietOrDeep ps) (hread : ReadsBalanced p c) :
    DeepOrPassed p c ps := by
  rcases h with h | h
  · refine .inr ⟨[], ps, rfl, fun _ ↦ rfl, h, fun a c' hv ↦ ?_⟩
    obtain ⟨qs, hqs, -⟩ := hread a c' hv
    exact ⟨qs, hqs⟩
  · exact .inl h

/-- What a later parser passes is passed by a parser that goes on with it. -/
theorem DeepOrPassed.of_moves (h : DeepOrPassed q c₁ qs) (hmove : Moves c ps c₁)
    (hps : Balanced ps) (hlast : ∀ a c', p.value c = some (a, c') →
      ∃ b, q.value c₁ = some (b, c')) : DeepOrPassed p c (ps ++ qs) := by
  rcases h with h | ⟨vs, zs, rfl, hvs, hzs, hpassed⟩
  · exact .inl (.of_append hps h)
  · refine .inr ⟨ps ++ vs, zs, (List.append_assoc ..).symm, hps.append hvs, hzs, fun a c' hv ↦ ?_⟩
    obtain ⟨b, hv⟩ := hlast a c' hv
    obtain ⟨ys, hys⟩ := hpassed b c' hv
    refine ⟨ys, ?_⟩
    rw [List.append_assoc]
    exact hmove.trans hys

/-- Where the pieces in front of a place are deep or passed, the blocks in front of it are closed only
if no brace stands behind what the parser reads. -/
theorem DeepOrPassed.quiet_of_foldl {css : Text} {a : α} (h : DeepOrPassed p ⟨css, 0⟩ (ps ++ qs))
    (hv : p.value ⟨css, 0⟩ = some (a, c)) (hps : Moves ⟨css, 0⟩ ps c)
    (hzero : (ps ++ qs).foldl openAfter 0 = 0) : Quiet qs := by
  rcases h with ⟨m, h⟩ | ⟨vs, zs, heq, -, hzs, hpassed⟩
  · rw [h 0, Nat.zero_add] at hzero
    cases hzero
  · obtain ⟨ys, hys⟩ := hpassed a c hv
    obtain rfl := List.append_cancel_right (hps.pieces_eq.symm.trans hys.pieces_eq)
    rw [List.append_assoc, List.append_cancel_left_eq] at heq
    rw [← heq] at hzs
    exact fun l hl ↦ hzs l (List.mem_append_right ys hl)

end DeepOrPassed

/-- A body between two pieces makes its calls inside of the blocks that it tries or behind what it
passes, and closes the blocks that it opens. -/
theorem calls_body_deepOrPassed {css : Text} (fuel : Nat) {us : List Text} {c : Cursor}
    (hc : Moves ⟨css, 0⟩ us c) (hapart : ∀ x ∈ (Grammar.body fuel).calls c, IsApart css x) :
    (∀ x ∈ (Grammar.body fuel).calls c, MadeBehind c (DeepOrPassed (Grammar.body fuel) c) x) ∧
      ReadsBalanced (Grammar.body fuel) c := by
  -- on the fuel, which the blocks of an item and the items behind it have less of
  induction fuel generalizing us c with
  | zero => exact ⟨nofun, nofun⟩
  | succ fuel ih =>
    have hbody : Keeps css (Grammar.body fuel) Rises Balanced := by
      intro us c hc hapart
      obtain ⟨hcalls, hvalue⟩ := ih hc hapart
      exact ⟨fun x hx ↦ (hcalls x hx).mono fun _ ↦ DeepOrPassed.rises, hvalue⟩
    obtain ⟨gap, r, hgap⟩ : ∃ gap r, Lexeme.gap c.rest = some (gap, r) := ⟨_, _, rfl⟩
    obtain ⟨gs, rfl, hgs, hquiet⟩ := Lexeme.isCalm_gap hgap
    have hmove : Moves c gs (Peg.advance c gs.flatten r) := ⟨hgs, rfl⟩
    rw [calls_body_succ hgap] at hapart ⊢
    obtain ⟨hapart, hapart'⟩ := List.forall_mem_append.1 hapart
    obtain ⟨hcalls, hvalue⟩ := keeps_item hbody (hc.trans hmove) hapart
    have hfirst (hread : ReadsBalanced (Grammar.body (fuel + 1)) c) :
        ∀ x ∈ (Grammar.item (Grammar.body fuel)).calls (Peg.advance c gs.flatten r),
          MadeBehind c (DeepOrPassed (Grammar.body (fuel + 1)) c) x :=
      fun x hx ↦ (hcalls x hx).of_moves hmove fun _ hqs ↦
        (QuietOrDeep.of_append hquiet hqs).deepOrPassed hread
    cases hv : (Grammar.item (Grammar.body fuel)).value (Peg.advance c gs.flatten r) with
    | none =>
      have hread : ReadsBalanced (Grammar.body (fuel + 1)) c := by
        intro b c' h
        rw [value_body_succ hgap, hv] at h
        cases h
        exact ⟨gs, hmove, hquiet.balanced⟩
      rw [Option.elim_none, List.append_nil]
      exact ⟨hfirst hread, hread⟩
    | some x =>
      rw [hv] at hapart'
      obtain ⟨ps, hps, hbalanced⟩ := hvalue x.1 x.2 hv
      have hnext : Moves c (gs ++ ps) x.2 := hmove.trans hps
      have hclosed : Balanced (gs ++ ps) := hquiet.balanced.append hbalanced
      obtain ⟨hcalls', hvalue'⟩ := ih (hc.trans hnext) hapart'
      have hlast : ∀ b c', (Grammar.body (fuel + 1)).value c = some (b, c') →
          ∃ b', (Grammar.body fuel).value x.2 = some (b', c') := by
        intro b c' h
        rw [value_body_succ hgap, hv, Option.elim_some, Option.map_eq_some_iff] at h
        obtain ⟨y, hy, heq⟩ := h
        cases heq
        exact ⟨y.1, hy⟩
      have hread : ReadsBalanced (Grammar.body (fuel + 1)) c := by
        intro b c' h
        obtain ⟨b', h⟩ := hlast b c' h
        obtain ⟨qs, hqs, hbalanced'⟩ := hvalue' b' c' h
        exact ⟨gs ++ ps ++ qs, hnext.trans hqs, hclosed.append hbalanced'⟩
      refine ⟨List.forall_mem_append.2 ⟨hfirst hread, fun y hy ↦ ?_⟩, hread⟩
      exact (hcalls' y hy).of_moves hnext fun _ hqs ↦ hqs.of_moves hnext hclosed hlast

/-! ## The hint -/

/-- A parse calls the stylesheet, what its body calls, and the end of the text behind the body. -/
theorem callsOf_eq {css : Text} {b : Body} {c : Cursor}
    (h : (Grammar.body (css.length + 1)).value ⟨css, 0⟩ = some (b, c)) :
    callsOf css = ⟨.stylesheet, 0, c.rest.isEmpty⟩ ::
      ((Grammar.body (css.length + 1)).calls ⟨css, 0⟩ ++
        [⟨.endOfText, c.offset, c.rest.isEmpty⟩]) := by
  rw [callsOf, Grammar.stylesheet, calls_named, calls_bind, value_bind, h, Option.elim_some,
    Option.bind_some, calls_bind, value_bind, value_named, value_ahead, calls_named, calls_ahead,
    value_ahead]
  cases c.rest with
  | nil => rfl
  | cons x t => rfl

/-- A text is not read to its end if it cannot be read. -/
theorem ne_nil_of_parse_eq_error {css : Text} {d : Diagnostic} {b : Body} {c : Cursor}
    (h : parse css = .error d)
    (hv : (Grammar.body (css.length + 1)).value ⟨css, 0⟩ = some (b, c)) : c.rest ≠ [] := by
  intro hnil
  have hok : parse css = .ok b.toRoot := by
    refine parse_eq_ok_iff.2 ⟨b, c, ?_, rfl⟩
    rw [Grammar.stylesheet, value_named, value_bind, hv, Option.bind_some, value_bind, value_named,
      value_ahead, hnil]
    rfl
  cases h.symm.trans hok

/-- Where a call is made behind the items of a text, the blocks in front of it are closed exactly if
no brace that counts stands between the items and the call. -/
theorem unclosed_eq_zero_iff {css rest : Text} {b : Body} {stop : Nat}
    (hv : (Grammar.body (css.length + 1)).value ⟨css, 0⟩ = some (b, ⟨rest, stop⟩))
    (hapart : ∀ x ∈ callsOf css, IsApart css x) {x : Call Symbol} (hx : x ∈ callsOf css)
    (hle : stop ≤ x.offset) :
    unclosed x.offset css = 0 ↔ Quiet (piecesBefore (x.offset - stop) rest) := by
  rw [callsOf_eq hv] at hapart hx
  obtain ⟨hcalls, hread⟩ := calls_body_deepOrPassed _ (Moves.refl ⟨css, 0⟩) fun y hy ↦
    hapart y (List.mem_cons_of_mem _ (List.mem_append_left _ hy))
  obtain ⟨qs, hqs, hbalanced⟩ := hread b _ hv
  have hbefore : piecesBefore x.offset css = qs ++ piecesBefore (x.offset - stop) rest := by
    have hstop : stop = 0 + Text.size qs.flatten := hqs.offset_eq
    have hbefore := hqs.piecesBefore_eq (x.offset - stop)
    rwa [← Nat.zero_add (Text.size qs.flatten), ← hstop, Nat.add_sub_cancel' hle] at hbefore
  rw [unclosed, hbefore]
  constructor
  · intro hzero
    have hpassed : x.offset ≤ stop ∨
        DeepOrPassed (Grammar.body (css.length + 1)) ⟨css, 0⟩ (piecesBefore x.offset css) := by
      rcases List.mem_cons.1 hx with rfl | hx
      · exact .inl (Nat.zero_le stop)
      · rcases List.mem_append.1 hx with hx | hx
        · obtain ⟨k, hk, hpassed⟩ := hcalls x hx
          rw [hk, Nat.zero_add]
          exact .inr hpassed
        · obtain rfl := List.mem_singleton.1 hx
          exact .inl (Nat.le_refl stop)
    rcases hpassed with hpassed | hpassed
    · rw [Nat.sub_eq_zero_of_le hpassed, piecesBefore_zero]
      exact nofun
    · rw [hbefore] at hpassed
      exact hpassed.quiet_of_foldl hv hqs hzero
  · intro hquiet
    exact hbalanced.append hquiet.balanced 0

/-- Where a text cannot be read and the hint says that a closing brace has no partner, such a brace
stands there. The items of the text end at the error or in front of it, and the hint is right exactly
if no brace that counts stands between. -/
theorem unmatched_iff_quiet {css : Text} {d : Diagnostic} (h : parse css = .error d)
    (hhint : d.hint = some unmatchedHint) (hapart : ∀ x ∈ callsOf css, IsApart css x) :
    (∃ r, css.StandsAt d.span.start ('}' :: r)) ∧
      ∃ ps rest stop, Peg.Matches grammar false (.call .body) ⟨css, 0⟩ (some (ps, ⟨rest, stop⟩)) ∧
        stop ≤ d.span.start ∧
        (unclosed d.span.start css = 0 ↔ Quiet (piecesBefore (d.span.start - stop) rest)) := by
  obtain ⟨s, hs, -, hhint'⟩ := exists_of_parse_eq_error h
  obtain ⟨r, rfl⟩ := (hintFor_eq_unmatched_iff s).1 (hhint'.symm.trans hhint)
  obtain ⟨b, ps, ⟨rest, stop⟩, hv, hm, -⟩ :=
    exists_body (c := ⟨css, 0⟩) (Text.standsAt_zero css) (Nat.lt_succ_self css.length)
  obtain ⟨f, rfl, hfurthest, hexpected, hfailed⟩ := exists_frontier_of_parse_eq_error h
  have hle : stop ≤ f.offset := by
    -- the end of the text was expected behind the items, and it is not there
    refine hfurthest ⟨.endOfText, stop, false⟩ ?_ rfl
    rw [callsOf_eq hv, List.isEmpty_eq_false_iff.2 (ne_nil_of_parse_eq_error h hv)]
    exact List.mem_cons_of_mem _ (List.mem_append_right _ (List.mem_singleton_self _))
  obtain ⟨x, hx⟩ := List.exists_mem_of_ne_nil _ hexpected
  exact ⟨⟨r, hs⟩, ps, rest, stop, .call hm, hle,
    unclosed_eq_zero_iff hv hapart (hfailed x hx) hle⟩

/-- A brace behind a rule that is closed: the hint is right, and there is no brace between. -/
theorem unmatched_iff_quiet_behind_rule :
    ∃ d, parse "a\x7bb:c\x7d\x7d".toList = .error d ∧ d.hint = some unmatchedHint ∧
      unclosed d.span.start "a\x7bb:c\x7d\x7d".toList = 0 ∧
      ∃ ps rest stop, Peg.Matches grammar false (.call .body) ⟨"a\x7bb:c\x7d\x7d".toList, 0⟩
          (some (ps, ⟨rest, stop⟩)) ∧ stop ≤ d.span.start ∧
        Quiet (piecesBefore (d.span.start - stop) rest) := by
  have h : parse "a\x7bb:c\x7d\x7d".toList = .error ⟨⟨6, 7⟩,
      "invalid CSS: expected EOI, comment_node, selector, at_rule, or prop".toList,
      some unmatchedHint⟩ := by
    decide +kernel
  have hzero : unclosed 6 "a\x7bb:c\x7d\x7d".toList = 0 := by decide +kernel
  obtain ⟨-, ps, rest, stop, hm, hle, hiff⟩ := unmatched_iff_quiet h rfl (by decide +kernel)
  exact ⟨_, h, rfl, hzero, ps, rest, stop, hm, hle, hiff.1 hzero⟩

/-- A declaration without a colon: the hint is given at the brace that closes its block. -/
theorem unclosed_of_missing_colon :
    ∃ d, parse "a\x7bb\x7d".toList = .error d ∧ d.hint = some unmatchedHint ∧
      unclosed d.span.start "a\x7bb\x7d".toList = 1 := by
  have h : parse "a\x7bb\x7d".toList = .error ⟨⟨3, 4⟩,
      "invalid CSS: expected block or decl_between".toList, some unmatchedHint⟩ := by
    decide +kernel
  exact ⟨_, h, rfl, by decide +kernel⟩

end EmbeddedCss.Css
