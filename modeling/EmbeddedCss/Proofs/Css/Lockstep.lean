import EmbeddedCss.Css.Edit
import EmbeddedCss.Proofs.Css.Commented
import EmbeddedCss.Proofs.Css.Tracing
import Mathlib.Data.List.Forall2

/-! # Trees of texts that differ inside a comment

Texts that are read in lockstep by every lexeme are read in lockstep by the grammar. Their trees
have the same shape, with nodes of the same kinds, and the nodes stand at corresponding places. -/

namespace EmbeddedCss

/-! ## Parsers in lockstep -/

namespace Parser

variable {σ α β : Type}

/-- At two places, either two parsers refuse, or both read; then the places where they stop and the
values that they read are related. -/
inductive InStep (R : Cursor → Cursor → Prop) (p p' : Parser σ α) (c c' : Cursor)
    (Q : α → Cursor → α → Cursor → Prop) : Prop
  | refused : p.value c = none → p'.value c' = none → InStep R p p' c c' Q
  | read {a a' : α} {d d' : Cursor} : p.value c = some (a, d) → p'.value c' = some (a', d') →
      R d d' → Q a d a' d' → InStep R p p' c c' Q

variable {R R' : Cursor → Cursor → Prop} {p p' q q' : Parser σ α} {c c' : Cursor}
  {Q Q' : α → Cursor → α → Cursor → Prop}

theorem InStep.mono (h : InStep R p p' c c' Q)
    (hQ : ∀ {a d a' d'}, R d d' → Q a d a' d' → R' d d' ∧ Q' a d a' d') :
    InStep R' p p' c c' Q' := by
  cases h with
  | refused h h' => exact .refused h h'
  | read h h' hr hq => exact .read h h' (hQ hr hq).1 (hQ hr hq).2

theorem inStep_pure {a a' : α} (h : R c c') (hq : Q a c a' c') :
    InStep R (pure a) (pure a' : Parser σ α) c c' Q := .read rfl rfl h hq

theorem InStep.bind {f f' : α → Parser σ β} {Q' : β → Cursor → β → Cursor → Prop}
    (h : InStep R p p' c c' Q)
    (hf : ∀ {a d a' d'}, R d d' → Q a d a' d' → InStep R' (f a) (f' a') d d' Q') :
    InStep R' (p >>= f) (p' >>= f') c c' Q' := by
  have hb := value_bind p f c
  have hb' := value_bind p' f' c'
  cases h with
  | refused h h' =>
    rw [h, Option.bind_none] at hb
    rw [h', Option.bind_none] at hb'
    exact .refused hb hb'
  | read h h' hr hq =>
    rw [h, Option.bind_some] at hb
    rw [h', Option.bind_some] at hb'
    cases hf hr hq with
    | refused h₁ h₁' => exact .refused (hb.trans h₁) (hb'.trans h₁')
    | read h₁ h₁' hr hq => exact .read (hb.trans h₁) (hb'.trans h₁') hr hq

theorem InStep.orElse (h : InStep R p p' c c' Q) (hq : InStep R q q' c c' Q) :
    InStep R (orElse p q) (Parser.orElse p' q') c c' Q := by
  have ho := value_orElse p q c
  have ho' := value_orElse p' q' c'
  cases h with
  | read h h' hr hQ =>
    rw [h, Option.some_or] at ho
    rw [h', Option.some_or] at ho'
    exact .read ho ho' hr hQ
  | refused h h' =>
    rw [h, Option.none_or] at ho
    rw [h', Option.none_or] at ho'
    cases hq with
    | refused h₁ h₁' => exact .refused (ho.trans h₁) (ho'.trans h₁')
    | read h₁ h₁' hr hQ => exact .read (ho.trans h₁) (ho'.trans h₁') hr hQ

theorem InStep.map {f : α → β} {Q' : β → Cursor → β → Cursor → Prop} (h : InStep R p p' c c' Q)
    (hf : ∀ {a d a' d'}, R d d' → Q a d a' d' → Q' (f a) d (f a') d') :
    InStep R (f <$> p) (f <$> p') c c' Q' := by
  change InStep R (p >>= fun a ↦ pure (f a)) (p' >>= fun a ↦ pure (f a)) c c' Q'
  exact h.bind fun hr hq ↦ inStep_pure hr (hf hr hq)

/-- What is optional is there at both places or at neither. -/
theorem InStep.optional (h : InStep R p p' c c' Q) (hc : p.value c = none → R c c') :
    InStep R (optional p) (Parser.optional p') c c' fun a d a' d' ↦
      (a = none ∧ a' = none ∧ d = c ∧ d' = c' ∧ p.value c = none) ∨
        ∃ x x', a = some x ∧ a' = some x' ∧ Q x d x' d' := by
  have ho := value_optional p c
  have ho' := value_optional p' c'
  cases h with
  | refused hv hv' =>
    rw [hv] at ho
    rw [hv'] at ho'
    exact .read ho ho' (hc hv) (.inl ⟨rfl, rfl, rfl, rfl, hv⟩)
  | read hv hv' hr hq =>
    rw [hv] at ho
    rw [hv'] at ho'
    exact .read ho ho' hr (.inr ⟨_, _, rfl, rfl, hq⟩)

theorem InStep.named (symbol : σ) (h : InStep R p p' c c' Q) :
    InStep R (named symbol p) (Parser.named symbol p') c c' Q := by
  cases h with
  | refused h h' => exact .refused h h'
  | read h h' hr hq => exact .read h h' hr hq

/-! ## Lexemes -/

/-- A place in one text and a place in another one, such that what is left there is related, and has
no more than some numbers of characters. -/
structure Paired (css css' : Text) (T : Text → Text → Prop) (n n' : Nat) (c c' : Cursor) :
    Prop where
  left : css.StandsAt c.offset c.rest
  right : css'.StandsAt c'.offset c'.rest
  rest : T c.rest c'.rest
  length : c.rest.length ≤ n
  length' : c'.rest.length ≤ n'

variable {css css' : Text} {T T' : Text → Text → Prop} {n n' : Nat} {a : Scanner}

theorem Paired.mono {m m' : Nat} (h : Paired css css' T n n' c c')
    (hT : T c.rest c'.rest → T' c.rest c'.rest) (hm : c.rest.length ≤ m)
    (hm' : c'.rest.length ≤ m') : Paired css css' T' m m' c c' :=
  ⟨h.left, h.right, hT h.rest, hm, hm'⟩

theorem Paired.imp (h : Paired css css' T n n' c c')
    (hT : T c.rest c'.rest → T' c.rest c'.rest) : Paired css css' T' n n' c c' :=
  h.mono hT h.length h.length'

/-- A lexeme that is read in lockstep moves both places by its size. -/
theorem inStep_lexeme (ha : a.Lockstep T T') (hexact : a.Exact) (h : Paired css css' T n n' c c') :
    InStep (Paired css css' T' n n') (lexeme a : Parser σ Text) (lexeme a) c c' fun l d l' d' ↦
      (d.offset = c.offset + Text.size l ∧ d'.offset = c'.offset + Text.size l') ∧
        a c.rest = some (l, d.rest) := by
  have hv := value_lexeme (σ := σ) a c
  have hv' := value_lexeme (σ := σ) a c'
  cases ha h.rest with
  | refused h₁ h₁' =>
    rw [h₁, Option.map_none] at hv
    rw [h₁', Option.map_none] at hv'
    exact .refused hv hv'
  | read h₁ h₁' hr =>
    rw [h₁, Option.map_some] at hv
    rw [h₁', Option.map_some] at hv'
    have hleft := (staysIn_lexeme (σ := σ) hexact c h.left).2 _ hv
    have hright := (staysIn_lexeme (σ := σ) hexact c' h.right).2 _ hv'
    have hlength := (List.IsSuffix.length_le ⟨_, hexact h₁⟩).trans h.length
    have hlength' := (List.IsSuffix.length_le ⟨_, hexact h₁'⟩).trans h.length'
    exact .read hv hv' ⟨hleft, hright, hr, hlength, hlength'⟩ ⟨⟨rfl, rfl⟩, h₁⟩

theorem inStep_token (symbol : σ) (ha : a.Lockstep T T') (hexact : a.Exact)
    (h : Paired css css' T n n' c c') :
    InStep (Paired css css' T' n n') (token symbol a) (token symbol a) c c' fun l d l' d' ↦
      (d.offset = c.offset + Text.size l ∧ d'.offset = c'.offset + Text.size l') ∧
        a c.rest = some (l, d.rest) :=
  (inStep_lexeme ha hexact h).named symbol

theorem value_token_eq_none {symbol : σ} (h : (token symbol a).value c = none) :
    a c.rest = none := by
  rw [token, value_named, value_lexeme] at h
  exact Option.map_eq_none_iff.1 h

/-- A character that is read at both places leaves less of both texts. -/
theorem inStep_char {x : Char} (hx : (Scanner.char (· == x)).Lockstep T T')
    (h : Paired css css' T n n' c c') :
    InStep (Paired css css' T' n n') (char x : Parser σ Unit) (char x) c c' fun _ d _ d' ↦
      (d.offset = c.offset + x.utf8Size ∧ d'.offset = c'.offset + x.utf8Size) ∧
        d.rest.length < n ∧ d'.rest.length < n' := by
  have hread : InStep (Paired css css' T' n n') (char x : Parser σ Unit) (char x) c c'
      fun _ _ _ _ ↦ True := (inStep_lexeme hx (Scanner.exact_char _) h).map fun _ _ ↦ trivial
  cases hread with
  | refused hv hv' => exact .refused hv hv'
  | read hv hv' hr _ =>
    obtain ⟨hleft, hright, -, hlength, hlength'⟩ := h
    rw [value_char_eq_some hv] at hleft hlength
    rw [value_char_eq_some hv'] at hright hlength'
    refine .read hv hv' hr ⟨⟨?_, ?_⟩, hlength, hlength'⟩
    · exact Text.StandsAt.offset_eq (l := [x]) hleft hr.left
    · exact Text.StandsAt.offset_eq (l := [x]) hright hr.right

theorem inStep_ahead {test : Text → Bool} (ht : Scanner.SameTest T test)
    (h : Paired css css' T n n' c c') :
    InStep (Paired css css' T n n') (ahead test : Parser σ Unit) (ahead test) c c' fun _ d _ d' ↦
      d = c ∧ d' = c' ∧ test c.rest = true := by
  have hv := value_ahead (σ := σ) test c
  have hv' := value_ahead (σ := σ) test c'
  rw [← ht h.rest] at hv'
  split at hv
  · exact .read hv (hv'.trans (if_pos ‹_›)) h ⟨rfl, rfl, ‹_›⟩
  · exact .refused hv (hv'.trans (if_neg ‹_›))

end Parser

/-! ## Alike trees -/

namespace Css

open Lexeme
open EmbeddedCss.Parser

/-- Two nodes of the same kind with alike children, of which the second stands where `f` says. -/
inductive Node.Alike (f : Nat → Nat) : Node → Node → Prop
  | rule {selector selector' : Text} {nodes nodes' : List Node} {layout layout' : Layout}
      {start stop : Nat} : List.Forall₂ (Node.Alike f) nodes nodes' →
      Node.Alike f (.rule selector nodes layout (some ⟨start, stop⟩))
        (.rule selector' nodes' layout' (some ⟨f start, f stop⟩))
  | statement {name name' params params' : Text} {layout layout' : Layout} {start stop : Nat} :
      Node.Alike f (.atRule name params none layout (some ⟨start, stop⟩))
        (.atRule name' params' none layout' (some ⟨f start, f stop⟩))
  | atBlock {name name' params params' : Text} {nodes nodes' : List Node}
      {layout layout' : Layout} {start stop : Nat} : List.Forall₂ (Node.Alike f) nodes nodes' →
      Node.Alike f (.atRule name params (some nodes) layout (some ⟨start, stop⟩))
        (.atRule name' params' (some nodes') layout' (some ⟨f start, f stop⟩))
  | decl {prop prop' value value' : Text} {important important' : Bool} {layout layout' : Layout}
      {start stop : Nat} : Node.Alike f (.decl prop value important layout (some ⟨start, stop⟩))
        (.decl prop' value' important' layout' (some ⟨f start, f stop⟩))
  | comment {text text' : Text} {layout layout' : Layout} {start stop : Nat} :
      Node.Alike f (.comment text layout (some ⟨start, stop⟩))
        (.comment text' layout' (some ⟨f start, f stop⟩))

/-- Bodies at two offsets have alike nodes. -/
def Body.Alike (f : Nat → Nat) (offset offset' : Nat) (b b' : Body) : Prop :=
  ∀ unended unended', List.Forall₂ (Node.Alike f) (b.contents offset unended).nodes
    (b'.contents offset' unended').nodes

/-- Items at two offsets are of the same form with alike blocks. -/
inductive Item.Alike (f : Nat → Nat) (start start' : Nat) : Item → Item → Prop
  | comment {l l' : Text} : Item.Alike f start start' (.comment l) (.comment l')
  | rule {selector selector' between between' : Text} {b b' : Body} :
      Body.Alike f (start + Text.size selector + Text.size between + 1)
        (start' + Text.size selector' + Text.size between' + 1) b b' →
      Item.Alike f start start' (.rule selector between b) (.rule selector' between' b')
  | statement {name name' : Text} {params params' : Option (Text × Text)}
      {between between' : Option Text} :
      Item.Alike f start start' (.statement name params between) (.statement name' params' between')
  | atBlock {name name' between between' : Text} {params params' : Option (Text × Text)}
      {b b' : Body} :
      Body.Alike f
        (start + 1 + Text.size name + Text.size (paramsText params) + Text.size between + 1)
        (start' + 1 + Text.size name' + Text.size (paramsText params') + Text.size between' + 1)
        b b' →
      Item.Alike f start start' (.atBlock name params between b)
        (.atBlock name' params' between' b')
  | decl {property property' colon colon' value value' : Text} :
      Item.Alike f start start' (.decl property colon value) (.decl property' colon' value')

/-- Alike items that start and stop where `f` says give alike nodes. -/
theorem Item.Alike.toNode {f : Nat → Nat} {start start' : Nat} {i i' : Item}
    (h : Item.Alike f start start' i i') (hstart : start' = f start)
    (hstop : start' + Text.size i'.text = f (start + Text.size i.text)) (before before' : Text) :
    Node.Alike f (i.toNode start before) (i'.toNode start' before') := by
  subst hstart
  cases h with
  | comment =>
    simp only [Item.toNode, Node.ofComment]
    rw [Item.text, Item.text] at hstop
    rw [hstop]
    exact .comment
  | rule hb =>
    simp only [Item.toNode, hstop]
    exact .rule (hb false false)
  | statement =>
    simp only [Item.toNode, hstop]
    exact .statement
  | atBlock hb =>
    simp only [Item.toNode, hstop]
    exact .atBlock (hb false false)
  | decl =>
    simp only [Item.toNode, hstop]
    obtain ⟨_, _, _, h⟩ := exists_ofValue_eq _ _ _ _
    obtain ⟨_, _, _, h'⟩ := exists_ofValue_eq _ _ _ _
    rw [h, h']
    exact .decl

/-! ## The grammar in lockstep -/

section Grammar

variable {css css' w w' b : Text} (hw : Neutral w) (hw' : Neutral w')
  (hb : (commentTail b).isSome = true) {f : Nat → Nat} {n n' : Nat}
  {body body' : Parser Symbol Body}
  (hbody : ∀ {c c'}, Paired css css' (Ready w w' b) n n' c c' →
    c.rest.length < n → c'.rest.length < n' →
    InStep (Paired css css' (Lexeme.Alike w w' b .start) n n') body body' c c'
      fun x _ x' _ ↦ Body.Alike f c.offset c'.offset x x')
  {c c' : Cursor}

include hw hw' hb in
theorem ready_of_stops (hc : Paired css css' (Lexeme.Alike w w' b .rest) n n' c c')
    (hs : Stops c.rest) : Paired css css' (Ready w w' b) n n' c c' :=
  hc.imp fun h ↦ h.ready_of_stops hw hw' hb hs

include hw hw' hb in
theorem inStep_decl (hc : Paired css css' (Lexeme.Alike w w' b .start) n n' c c') :
    InStep (Paired css css' (Ready w w' b) n n') Grammar.decl Grammar.decl c c'
      fun i _ i' _ ↦ Item.Alike f c.offset c'.offset i i' := by
  refine InStep.named _ ?_
  refine (inStep_token _ (lockstep_property hw hw' hb) productive_property.1 hc).bind fun h₁ _ ↦ ?_
  refine (inStep_token _ lockstep_colon exact_colon (h₁.imp .rest)).bind fun h₂ hcolon ↦ ?_
  refine ((inStep_token _ (lockstep_prelude hw hw' hb) productive_prelude.1 h₂).optional
    fun _ ↦ h₂).bind fun {v d₃ v' d₃'} h₃ hvalue ↦ ?_
  have hstops : Stops d₃.rest := by
    rcases hvalue with ⟨-, -, rfl, rfl, hnone⟩ | ⟨x, x', -, -, -, hread⟩
    · exact stops_of_colon hcolon.2 (value_token_eq_none hnone)
    · exact stops_of_prelude hread
  refine ((inStep_token _ lockstep_trailing productive_trailing.1 h₃).optional fun _ ↦ h₃).bind
    fun {v d₄ v' d₄'} h₄ htrailing ↦ ?_
  have hstops' : Stops d₄.rest := by
    rcases htrailing with ⟨-, -, rfl, rfl, -⟩ | ⟨x, x', -, -, -, hread⟩
    · exact hstops
    · exact stops_of_semicolon (Scanner.of_followedBy hread).2
  exact inStep_pure (ready_of_stops hw hw' hb h₄ hstops') .decl

include hbody in
theorem inStep_block (hc : Paired css css' (Lexeme.Alike w w' b .rest) n n' c c') :
    InStep (Paired css css' (Ready w w' b) n n') (Grammar.block body) (Grammar.block body') c c'
      fun x _ x' _ ↦ Body.Alike f (c.offset + 1) (c'.offset + 1) x x' := by
  refine InStep.named _ ?_
  refine (inStep_char (lockstep_brace (by decide)) hc).bind fun h₁ ho ↦ ?_
  refine (hbody h₁ ho.2.1 ho.2.2).bind fun h₂ hx ↦ ?_
  refine (inStep_char (lockstep_brace (by decide)) h₂).bind fun h₃ _ ↦ ?_
  refine inStep_pure h₃ ?_
  rw [ho.1.1, ho.1.2] at hx
  exact hx

include hw hw' hb hbody in
theorem inStep_rule (hc : Paired css css' (Lexeme.Alike w w' b .start) n n' c c') :
    InStep (Paired css css' (Ready w w' b) n n') (Grammar.rule body) (Grammar.rule body') c c'
      fun i _ i' _ ↦ Item.Alike f c.offset c'.offset i i' := by
  refine InStep.named _ ?_
  refine (inStep_token _ (lockstep_prelude hw hw' hb) productive_prelude.1 (hc.imp .rest)).bind
    fun h₁ ho₁ ↦ ?_
  refine (inStep_lexeme lockstep_spaces exact_spaces h₁).bind fun h₂ ho₂ ↦ ?_
  refine (inStep_block hbody h₂).bind fun h₃ hx ↦ ?_
  refine inStep_pure h₃ (.rule ?_)
  rw [ho₂.1.1, ho₂.1.2, ho₁.1.1, ho₁.1.2] at hx
  exact hx

/-- At-rules without parameters are in front of something that starts none. -/
theorem stops_of_params (h : Grammar.params.value c = none) : Stops c.rest := by
  refine stops_of_prelude_eq_none ?_
  cases hread : prelude (c.rest.dropWhile Text.isSpace) with
  | none => rfl
  | some x =>
    simp [Grammar.params, token, value_bind, value_named, value_lexeme, spaces, Scanner.run,
      hread] at h

include hw hw' hb in
theorem inStep_params (hc : Paired css css' (Lexeme.Alike w w' b .rest) n n' c c') :
    InStep (Paired css css' (Lexeme.Alike w w' b .rest) n n') (optional Grammar.params)
      (optional Grammar.params) c c' fun p d p' d' ↦
      (d.offset = c.offset + Text.size (paramsText p) ∧
        d'.offset = c'.offset + Text.size (paramsText p')) ∧ Stops d.rest := by
  have hparams : InStep (Paired css css' (Lexeme.Alike w w' b .rest) n n') Grammar.params
      Grammar.params c c' fun p d p' d' ↦
      (d.offset = c.offset + Text.size (paramsText (some p)) ∧
        d'.offset = c'.offset + Text.size (paramsText (some p'))) ∧ Stops d.rest := by
    refine (inStep_token _ lockstep_spaces exact_spaces hc).bind fun h₁ ho₁ ↦ ?_
    refine (inStep_token _ (lockstep_prelude hw hw' hb) productive_prelude.1 h₁).bind
      fun h₂ ho₂ ↦ ?_
    refine inStep_pure h₂ ⟨?_, stops_of_prelude ho₂.2⟩
    simp only [paramsText, Option.elim_some, Text.size_append]
    omega
  refine (hparams.optional fun _ ↦ hc).mono fun hr h ↦ ⟨hr, ?_⟩
  rcases h with ⟨rfl, rfl, rfl, rfl, hnone⟩ | ⟨p, p', rfl, rfl, h⟩
  · exact ⟨⟨rfl, rfl⟩, stops_of_params hnone⟩
  · exact h

/-- What ends an at-rule is a block in both texts or in neither. -/
inductive AtEndAlike (f : Nat → Nat) (offset offset' : Nat) :
    Text × Option Body → Text × Option Body → Prop
  | none {between between' : Text} :
      AtEndAlike f offset offset' (between, none) (between', none)
  | some {between between' : Text} {x x' : Body} :
      Body.Alike f (offset + Text.size between + 1) (offset' + Text.size between' + 1) x x' →
      AtEndAlike f offset offset' (between, some x) (between', some x')

include hw hw' hb hbody in
theorem inStep_atEnd (hc : Paired css css' (Lexeme.Alike w w' b .rest) n n' c c') :
    InStep (Paired css css' (Ready w w' b) n n') (Grammar.atEnd body) (Grammar.atEnd body') c c'
      fun e _ e' _ ↦ AtEndAlike f c.offset c'.offset e e' := by
  refine (inStep_token _ lockstep_spaces exact_spaces hc).bind fun h₁ ho ↦ ?_
  refine InStep.orElse ?_ ?_
  · refine (inStep_block hbody h₁).bind fun h₂ hx ↦ ?_
    rw [ho.1.1, ho.1.2] at hx
    exact inStep_pure h₂ (.some hx)
  · refine (inStep_ahead (fun _ _ h ↦ by rw [h.head?_eq]) h₁).bind fun h₂ htest ↦ ?_
    obtain ⟨rfl, rfl, htest⟩ := htest
    exact inStep_pure (ready_of_stops hw hw' hb h₂ (stops_of_semicolon htest)) .none

include hw hw' hb hbody in
theorem inStep_atRule (hc : Paired css css' (Lexeme.Alike w w' b .start) n n' c c') :
    InStep (Paired css css' (Ready w w' b) n n') (Grammar.atRule body) (Grammar.atRule body') c c'
      fun i _ i' _ ↦ Item.Alike f c.offset c'.offset i i' := by
  refine InStep.named _ ?_
  refine (inStep_char (lockstep_char (by decide)
    (leads (p := .start) (q := .rest) nofun fun _ _ ↦ .inl rfl)) hc).bind fun h₁ ho₁ ↦ ?_
  refine (inStep_token _ lockstep_atName productive_atName.1 h₁).bind fun h₂ ho₂ ↦ ?_
  refine (inStep_params hw hw' hb h₂).bind fun h₃ ho₃ ↦ ?_
  refine ((inStep_atEnd hw hw' hb hbody h₃).optional
    fun _ ↦ ready_of_stops hw hw' hb h₃ ho₃.2).bind fun h₄ he ↦ ?_
  rcases he with ⟨rfl, rfl, -⟩ | ⟨e, e', rfl, rfl, he⟩
  · exact inStep_pure h₄ .statement
  · cases he with
    | none => exact inStep_pure h₄ .statement
    | some hx =>
      refine inStep_pure h₄ (.atBlock ?_)
      rw [ho₃.1.1, ho₃.1.2, ho₂.1.1, ho₂.1.2, ho₁.1.1, ho₁.1.2] at hx
      exact hx

include hw hw' hb hbody in
theorem inStep_item (hc : Paired css css' (Lexeme.Alike w w' b .start) n n' c c') :
    InStep (Paired css css' (Ready w w' b) n n') (Grammar.item body) (Grammar.item body') c c'
      fun i _ i' _ ↦ Item.Alike f c.offset c'.offset i i' := by
  have hcomment := inStep_token Symbol.comment
    ((lockstep_loneComment hw hw' hb).mono Alike.ready) productive_loneComment.1 hc
  exact (inStep_atRule hw hw' hb hbody hc).orElse <|
    (hcomment.map fun _ _ ↦ .comment).orElse <|
      (inStep_rule hw hw' hb hbody hc).orElse (inStep_decl hw hw' hb hc)

end Grammar

/-! ## Bodies and stylesheets -/

/-- An item takes something of the text. -/
theorem Item.Reads.rest_length_lt {s r : Text} {i : Item} (h : Item.Reads s i r) :
    r.length < s.length := by
  have hne : i.text ≠ [] := by
    cases h with
    | comment h => exact productive_loneComment.2 h
    | rule => simp [Item.text]
    | bare => simp [Item.text]
    | statement => simp [Item.text]
    | atBlock => simp [Item.text]
    | decl h => simp [Item.text, productive_property.2 h]
  have hpos := List.length_pos_iff.2 hne
  rw [← h.append, List.length_append]
  omega

theorem Item.Reads.offset_eq {css s r : Text} {i : Item} {m n : Nat} (h : Item.Reads s i r)
    (hs : css.StandsAt m s) (hr : css.StandsAt n r) : n = m + Text.size i.text := by
  rw [← h.append] at hs
  exact hs.offset_eq hr

section Bodies

variable {css css' w w' b : Text} (hw : Neutral w) (hw' : Neutral w')
  (hb : (commentTail b).isSome = true) {f : Nat → Nat}
  (hf : ∀ {p n n' c c'}, Paired css css' (Lexeme.Alike w w' b p) n n' c c' → c'.offset = f c.offset)

include hf in
/-- Items that are read in lockstep give nodes that stand where `f` says. They take something of
both texts. -/
theorem inStep_node {fuel fuel' n n' : Nat} {c c' : Cursor}
    (hc : Paired css css' (Lexeme.Alike w w' b .start) n n' c c')
    (h : InStep (Paired css css' (Ready w w' b) n n') (Grammar.item (Grammar.body fuel))
      (Grammar.item (Grammar.body fuel')) c c'
      fun i _ i' _ ↦ Item.Alike f c.offset c'.offset i i') :
    InStep (Paired css css' (Ready w w' b) n n') (Grammar.item (Grammar.body fuel))
      (Grammar.item (Grammar.body fuel')) c c' fun i d i' d' ↦
      (∀ before before',
        Node.Alike f (i.toNode c.offset before) (i'.toNode c'.offset before')) ∧
      (d.offset = c.offset + Text.size i.text ∧ d'.offset = c'.offset + Text.size i'.text) ∧
      d.rest.length < n ∧ d'.rest.length < n' := by
  cases h with
  | refused hv hv' => exact .refused hv hv'
  | @read i i' d d' hv hv' hd hi =>
    have hreads := reads_of_value_item (fun h ↦ reads_of_value_body fuel h) hv
    have hreads' := reads_of_value_item (fun h ↦ reads_of_value_body fuel' h) hv'
    have hmove := hreads.offset_eq hc.left hd.left
    have hmove' := hreads'.offset_eq hc.right hd.right
    refine .read hv hv' hd ⟨fun before before' ↦ ?_, ⟨hmove, hmove'⟩, ?_, ?_⟩
    · refine hi.toNode (hf hc) ?_ before before'
      rw [← hmove, ← hmove']
      exact hf (hd.imp And.left)
    · exact hreads.rest_length_lt.trans_le hc.length
    · exact hreads'.rest_length_lt.trans_le hc.length'

include hw hw' hb hf in
theorem inStep_body {fuel fuel' n n' : Nat} (hn : n < fuel) (hn' : n' < fuel') {c c' : Cursor}
    (hc : Paired css css' (Ready w w' b) n n' c c') :
    InStep (Paired css css' (Lexeme.Alike w w' b .start) n n') (Grammar.body fuel)
      (Grammar.body fuel') c c' fun x _ x' _ ↦ Body.Alike f c.offset c'.offset x x' := by
  induction fuel generalizing fuel' n n' c c' with
  | zero => omega
  | succ fuel ih =>
    obtain ⟨fuel', rfl⟩ := Nat.exists_eq_add_one.2 (Nat.zero_lt_of_lt hn')
    -- what is read behind something else has less of the texts, and so fuel enough
    have hlater {d d' : Cursor} (hd : Paired css css' (Ready w w' b) n n' d d')
        (hlt : d.rest.length < n) (hlt' : d'.rest.length < n') :
        InStep (Paired css css' (Lexeme.Alike w w' b .start) n n') (Grammar.body fuel)
          (Grammar.body fuel') d d' fun x _ x' _ ↦ Body.Alike f d.offset d'.offset x x' := by
      have hm : n - 1 < fuel := by omega
      have hm' : n' - 1 < fuel' := by omega
      have h := ih hm hm' (hd.mono id (Nat.le_sub_one_of_lt hlt) (Nat.le_sub_one_of_lt hlt'))
      refine h.mono fun hr hq ↦ ⟨hr.mono id ?_ ?_, hq⟩
      · exact hr.length.trans (Nat.sub_le n 1)
      · exact hr.length'.trans (Nat.sub_le n' 1)
    refine (inStep_lexeme (fun _ _ h ↦ h.2) exact_gap hc).bind fun h₁ ho₁ ↦ ?_
    have hitem := inStep_node hf h₁ (inStep_item hw hw' hb hlater h₁)
    refine (hitem.optional fun _ ↦ h₁.imp Alike.ready).bind fun h₂ hi ↦ ?_
    rcases hi with ⟨rfl, rfl, rfl, rfl, -⟩ | ⟨i, i', rfl, rfl, hnode, ho₂, hlt, hlt'⟩
    · exact inStep_pure h₁ fun _ _ ↦ .nil
    · refine (hlater h₂ hlt hlt').bind fun h₃ hx ↦ ?_
      refine inStep_pure h₃ fun unended unended' ↦ ?_
      rw [ho₂.1, ho₂.2, ho₁.1.1, ho₁.1.2] at hx
      rw [ho₁.1.1, ho₁.1.2] at hnode
      exact .cons (hnode _ _) (hx _ _)

include hw hw' hb hf in
theorem inStep_stylesheet (h : Lexeme.Alike w w' b .start css css') :
    InStep (Paired css css' (Lexeme.Alike w w' b .start) css.length css'.length)
      (Grammar.stylesheet css.length) (Grammar.stylesheet css'.length) ⟨css, 0⟩ ⟨css', 0⟩
      fun x _ x' _ ↦ Body.Alike f 0 0 x x' := by
  have hstart : Paired css css' (Ready w w' b) css.length css'.length ⟨css, 0⟩ ⟨css', 0⟩ :=
    ⟨Text.standsAt_zero css, Text.standsAt_zero css', h.ready, le_rfl, le_rfl⟩
  have hend : Scanner.SameTest (Lexeme.Alike w w' b .start) List.isEmpty := by
    intro s s' h
    rw [Bool.eq_iff_iff, List.isEmpty_iff, List.isEmpty_iff, ← List.head?_eq_none_iff,
      ← List.head?_eq_none_iff, h.head?_eq]
  refine InStep.named _ ?_
  refine (inStep_body hw hw' hb hf (Nat.lt_succ_self _) (Nat.lt_succ_self _) hstart).bind
    fun h₁ hx ↦ ?_
  refine ((inStep_ahead hend h₁).named _).bind fun h₂ _ ↦ ?_
  exact inStep_pure h₂ hx

end Bodies

/-- Where an offset is found if the part `w` behind the text `a` is replaced by `w'`. -/
def moved (a w w' : Text) (n : Nat) : Nat :=
  if n ≤ Text.size a then n else n - Text.size w + Text.size w'

theorem offset_eq_moved {a w w' b : Text} (hw : w ≠ []) {p : Place} {n n' : Nat} {c c' : Cursor}
    (h : Paired (a ++ (w ++ b)) (a ++ (w' ++ b)) (Lexeme.Alike w w' b p) n n' c c') :
    c'.offset = moved a w w' c.offset := by
  obtain ⟨hleft, hright, hrest, -⟩ := h
  have hsize := hleft.size_eq
  have hsize' := hright.size_eq
  generalize c.rest = s, c'.rest = s' at hrest hsize hsize'
  simp only [Text.size_append] at hsize hsize'
  cases hrest with
  | before ht =>
    simp only [Text.size_append] at hsize hsize'
    rw [moved, if_pos (by omega)]
    omega
  | behind hs =>
    -- a place behind the part lies behind `a`, because the part is not empty
    obtain ⟨u, rfl⟩ := hs
    have hpos := Text.size_pos hw
    rw [Text.size_append] at hsize hsize'
    rw [moved, if_neg (by omega)]
    omega

/-- A text that can be read can be read with another part inside of a comment, and the nodes of its
tree stay the same but for that part. -/
theorem exists_parse_of_endsInComment {a w w' b : Text} (ha : EndsInComment .start a)
    (hw : Neutral w) (hw' : Neutral w') (hb : (commentTail b).isSome = true) {root : Root}
    (h : parse (a ++ (w ++ b)) = .ok root) :
    ∃ root', parse (a ++ (w' ++ b)) = .ok root' ∧
      List.Forall₂ (Node.Alike (moved a w w')) root.nodes root'.nodes := by
  have hsheet := inStep_stylesheet hw hw' hb (offset_eq_moved hw.1) (.before ha)
  obtain ⟨x, _, hx, rfl⟩ := parse_eq_ok_iff.1 h
  cases hsheet with
  | refused hv =>
    rw [hv] at hx
    cases hx
  | read hv hv' _ halike =>
    rw [hv] at hx
    cases hx
    exact ⟨_, parse_eq_ok_iff.2 ⟨_, _, hv', rfl⟩, halike false false⟩

/-! ## Nodes on a path -/

theorem Node.Alike.exists_children {f : Nat → Nat} {n n' : Node} (h : Node.Alike f n n')
    {ms : List Node} (hms : n.children? = some ms) :
    ∃ ms', n'.children? = some ms' ∧ List.Forall₂ (Node.Alike f) ms ms' := by
  cases h with
  | rule h =>
    cases hms
    exact ⟨_, rfl, h⟩
  | atBlock h =>
    cases hms
    exact ⟨_, rfl, h⟩
  | statement => cases hms
  | decl => cases hms
  | comment => cases hms

/-- A path leads to alike nodes in alike trees. -/
theorem Node.Alike.exists_get? {f : Nat → Nat} {ns ns' : List Node}
    (h : List.Forall₂ (Node.Alike f) ns ns') {path : Path} {n : Node}
    (hn : Node.get? ns path = some n) :
    ∃ n', Node.get? ns' path = some n' ∧ Node.Alike f n n' := by
  induction path generalizing ns ns' with
  | nil => cases hn
  | cons i path ih =>
    obtain ⟨m, hm, hpath⟩ := Node.get?_cons_eq_some.1 hn
    obtain ⟨m', hm', halike⟩ : ∃ m', ns'[i]? = some m' ∧ Node.Alike f m m' := by
      obtain ⟨hi, rfl⟩ := List.getElem?_eq_some_iff.1 hm
      exact ⟨_, List.getElem?_eq_getElem (h.length_eq ▸ hi), h.get hi _⟩
    rcases hpath with ⟨rfl, rfl⟩ | ⟨ms, hms, hn⟩
    · exact ⟨m', Node.get?_cons_eq_some.2 ⟨m', hm', .inl ⟨rfl, rfl⟩⟩, halike⟩
    · obtain ⟨ms', hms', hforall⟩ := halike.exists_children hms
      obtain ⟨n', hn', hnn'⟩ := ih hforall hn
      exact ⟨n', Node.get?_cons_eq_some.2 ⟨m', hm', .inr ⟨ms', hms', hn'⟩⟩, hnn'⟩

end Css

end EmbeddedCss
