import EmbeddedCss.Proofs.Css.Recognition
import EmbeddedCss.Proofs.Peg.Parsing
import Mathlib.Data.List.Forall2

/-! # The parser accepts exactly its grammar

A text can be read exactly if the rule of stylesheets matches it. The tree then has the shape of the
match: a node for each at-rule, comment, rule and declaration that was matched, nested as these are,
each with the span of its match and with the content that the rules inside it cover. -/

namespace EmbeddedCss.Css

open Peg

/-! ## What a match says of the tree -/

/-- The parameters of an at-rule are what the pairs behind its name say. -/
inductive ParamsMatched (css : Text) : List (Pair RuleName) → Text → Prop
  | none : ParamsMatched css [] []
  | some {space params : Span} {text : Text} : css.slice params = text →
      ParamsMatched css [.mk .atAfterName space [], .mk .atParams params []] text

/-- A node is what a pair says: it has the span of the pair, and its content is what the pairs inside
cover. -/
inductive NodeMatched (css : Text) : Pair RuleName → Node → Prop
  | comment {span : Span} {inner : Text} {layout : Layout} :
      css.slice span = '/' :: '*' :: inner ++ ['*', '/'] →
      NodeMatched css (.mk .commentNode span []) (.comment (Text.trim inner) layout (some span))
  | rule {span selector block : Span} {inner : List (Pair RuleName)} {text : Text}
      {nodes : List Node} {layout : Layout} :
      css.slice selector = text → List.Forall₂ (NodeMatched css) inner nodes →
      NodeMatched css (.mk .rule span [.mk .selector selector [], .mk .block block inner])
        (.rule text nodes layout (some span))
  | statement {span name : Span} {params between : List (Pair RuleName)} {text paramsText : Text}
      {layout : Layout} : css.slice name = text → ParamsMatched css params paramsText →
      (between = [] ∨ ∃ s, between = [.mk .atBetween s []]) →
      NodeMatched css (.mk .atRule span (.mk .atName name [] :: (params ++ between)))
        (.atRule text paramsText none layout (some span))
  | atBlock {span name between block : Span} {params inner : List (Pair RuleName)}
      {text paramsText : Text} {nodes : List Node} {layout : Layout} :
      css.slice name = text → ParamsMatched css params paramsText →
      List.Forall₂ (NodeMatched css) inner nodes →
      NodeMatched css (.mk .atRule span
          (.mk .atName name [] :: (params ++ [.mk .atBetween between [], .mk .block block inner])))
        (.atRule text paramsText (some nodes) layout (some span))
  | decl {span prop colon : Span} {value : List (Pair RuleName)} {text written : Text}
      {layout : Layout} : css.slice prop = text →
      (value.flatMap fun p ↦ css.slice p.span) = written →
      NodeMatched css (.mk .decl span (.mk .prop prop [] :: .mk .declBetween colon [] :: value))
        (.ofValue text layout span written)

/-- An item that was read at a place is the node that a pair says. -/
def ItemMatched (css : Text) (c : Cursor) (i : Item) (ps : List (Pair RuleName)) (c' : Cursor) :
    Prop :=
  c'.offset = c.offset + Text.size i.text ∧
    ∃ p, ps = [p] ∧ ∀ before, NodeMatched css p (i.toNode c.offset before)

/-- A body that was read at a place has the nodes that some pairs say. -/
def BodyMatched (css : Text) (c : Cursor) (b : Body) (ps : List (Pair RuleName)) (c' : Cursor) :
    Prop :=
  c'.offset = c.offset + Text.size b.text ∧
    ∀ unended, List.Forall₂ (NodeMatched css) ps (b.contents c.offset unended).nodes

/-! ## Items -/

/-! ### Sizes -/

theorem size_text_rule (selector between : Text) (b : Body) :
    Text.size (Item.rule selector between b).text =
      Text.size selector + Text.size between + 1 + Text.size b.text + 1 := by
  simp only [Item.text, Text.size_append, Text.size_cons, Text.size_nil,
    show '{'.utf8Size = 1 from rfl, show '}'.utf8Size = 1 from rfl]
  omega

theorem size_text_statement (name : Text) (params : Option (Text × Text))
    (between : Option Text) : Text.size (Item.statement name params between).text =
      1 + Text.size name + Text.size (paramsText params) + Text.size (between.getD []) := by
  simp only [Item.text, List.cons_append, Text.size_append, Text.size_cons,
    show '@'.utf8Size = 1 from rfl]
  omega

theorem size_text_atBlock (name : Text) (params : Option (Text × Text)) (between : Text)
    (b : Body) : Text.size (Item.atBlock name params between b).text =
      1 + Text.size name + Text.size (paramsText params) + Text.size between + 1 +
        Text.size b.text + 1 := by
  simp only [Item.text, List.cons_append, Text.size_append, Text.size_cons, Text.size_nil,
    show '@'.utf8Size = 1 from rfl, show '{'.utf8Size = 1 from rfl, show '}'.utf8Size = 1 from rfl]
  omega

section Items

open EmbeddedCss.Parser

variable {css : Text} {c : Cursor}

/-! ### Lexemes -/

/-- The lexeme of an atomic rule is what its pair covers. -/
theorem agrees_atomic {symbol : Symbol} {name : RuleName} {a : Scanner}
    (hc : css.StandsAt c.offset c.rest) (hkind : name.kind = .atomic)
    (ha : Recognizes grammar true c.rest.length a name.expr) (hexact : a.Exact) :
    Agrees grammar (token symbol a) (.call name) c fun l ps c' ↦
      ps = [.mk name ⟨c.offset, c'.offset⟩ []] ∧ c'.offset = c.offset + Text.size l ∧
        css.slice ⟨c.offset, c'.offset⟩ = l := by
  refine (agrees_token hkind ha).mono ?_
  rintro l ps c' - ⟨hps, hoffset, hl⟩
  refine ⟨hps, hoffset, ?_⟩
  rw [← hexact hl] at hc
  rw [hoffset]
  exact hc.slice_eq

/-- A lexeme that may be missing is what its pair covers, if there is one. -/
theorem agrees_optional {symbol : Symbol} {name : RuleName} {a : Scanner}
    (hc : css.StandsAt c.offset c.rest) (hkind : name.kind = .atomic)
    (ha : Recognizes grammar true c.rest.length a name.expr) (hexact : a.Exact) :
    Agrees grammar (optional (token symbol a)) (Expr.opt (.call name)) c fun l ps c' ↦
      c'.offset = c.offset + Text.size (l.getD []) ∧
        (ps.flatMap fun p ↦ css.slice p.span) = l.getD [] := by
  refine (agrees_atomic hc hkind ha hexact).optional.mono ?_
  rintro l? ps c' - (⟨l, rfl, rfl, hoffset, hl⟩ | ⟨rfl, rfl, rfl⟩)
  · exact ⟨hoffset, by simpa [Pair.span] using hl⟩
  · exact ⟨rfl, rfl⟩

/-! ### Kinds of items -/

theorem agrees_comment (hc : css.StandsAt c.offset c.rest) :
    Agrees grammar (Item.comment <$> token Symbol.comment Lexeme.loneComment)
      (.call .commentNode) c (ItemMatched css c) := by
  refine Agrees.bind_pure (agrees_token (g := grammar) (r := .commentNode) rfl
    Lexeme.recognizes_loneComment) ?_
  rintro l ps c' - ⟨rfl, hoffset, hl⟩
  refine ⟨_, rfl, hoffset, _, rfl, fun before ↦ ?_⟩
  obtain ⟨inner, hinner⟩ := Lexeme.comment_eq_some (Scanner.of_followedBy hl).1
  have hslice : css.slice ⟨c.offset, c'.offset⟩ = '/' :: '*' :: inner ++ ['*', '/'] := by
    rw [← Lexeme.productive_loneComment.1 hl] at hc
    rw [hoffset, hc.slice_eq, hinner]
  have hbetween : (l.drop 2).dropLast.dropLast = inner := by
    simp [hinner, List.dropLast_append_of_ne_nil]
  rw [Item.toNode, ← hoffset, Node.ofComment, hbetween]
  exact .comment hslice

theorem agrees_decl (hc : css.StandsAt c.offset c.rest) :
    Agrees grammar Grammar.decl (.call .decl) c (ItemMatched css c) := by
  refine .call_normal rfl <| .named _ <|
    .bind (agrees_atomic hc rfl Lexeme.recognizes_property Lexeme.productive_property.1) ?_
  rintro prop _ c₁ h₁ ⟨rfl, ho₁, hprop⟩
  replace h₁ := h₁.standsAt hc
  refine .bind (agrees_atomic h₁ rfl Lexeme.recognizes_colon Lexeme.exact_colon) ?_
  rintro colon _ c₂ h₂ ⟨rfl, ho₂, -⟩
  replace h₂ := h₂.standsAt h₁
  refine .bind (agrees_optional h₂ rfl Lexeme.recognizes_prelude Lexeme.productive_prelude.1) ?_
  rintro value ps c₃ h₃ ⟨ho₃, hvalue⟩
  replace h₃ := h₃.standsAt h₂
  refine .bind_pure
    (agrees_optional h₃ rfl Lexeme.recognizes_trailing Lexeme.productive_trailing.1) ?_
  rintro trailing ps' c₄ - ⟨ho₄, htrailing⟩
  have hoffset : c₄.offset = c.offset + Text.size
      (Item.decl prop colon (value.getD [] ++ trailing.getD [])).text := by
    simp only [Item.text, Text.size_append]
    omega
  refine ⟨_, rfl, hoffset, _, rfl, fun before ↦ ?_⟩
  rw [Item.toNode, ← hoffset]
  simp only [List.cons_append, List.nil_append]
  exact .decl hprop (by rw [List.flatMap_append, hvalue, htrailing])

-- the blocks of an item hold shorter texts than the item
variable {body : Parser Symbol Body}
  (hbody : ∀ c' : Cursor, css.StandsAt c'.offset c'.rest → c'.rest.length < c.rest.length →
    Agrees grammar body (.call .body) c' (BodyMatched css c'))

include hbody

theorem agrees_block {c₀ : Cursor} (hc : css.StandsAt c₀.offset c₀.rest)
    (hlength : c₀.rest.length ≤ c.rest.length) :
    Agrees grammar (Grammar.block body) (.call .block) c₀ fun b ps c' ↦
      ∃ inner, ps = [.mk .block ⟨c₀.offset, c'.offset⟩ inner] ∧
        c'.offset = c₀.offset + 1 + Text.size b.text + 1 ∧
        List.Forall₂ (NodeMatched css) inner (b.contents (c₀.offset + 1) false).nodes := by
  refine .call_normal rfl <| .named _ <| .bind (agrees_char '{') ?_
  rintro _ _ c₁ h₁ ⟨rfl, ho₁, hrest⟩
  refine .bind (hbody c₁ (h₁.standsAt hc) (by rw [hrest] at hlength; exact hlength)) ?_
  rintro b inner c₂ - ⟨ho₂, hnodes⟩
  refine .bind_pure (agrees_char '}') ?_
  rintro _ _ c₃ - ⟨rfl, ho₃, -⟩
  have h₁' : c₁.offset = c₀.offset + 1 := ho₁
  refine ⟨b, rfl, inner, by simp, ?_, ?_⟩
  · rw [ho₃, ho₂, h₁']
    rfl
  · rw [← h₁']
    exact hnodes false

theorem agrees_rule (hc : css.StandsAt c.offset c.rest) :
    Agrees grammar (Grammar.rule body) (.call .rule) c (ItemMatched css c) := by
  refine .call_normal rfl <| .named _ <|
    .bind (agrees_atomic hc rfl Lexeme.recognizes_prelude Lexeme.productive_prelude.1) ?_
  rintro selector _ c₁ h₁ ⟨rfl, ho₁, hselector⟩
  refine .bind (agrees_lexeme Lexeme.recognizes_spaces) ?_
  rintro between _ c₂ h₂ ⟨rfl, ho₂, -⟩
  refine .bind_pure (agrees_block hbody (h₂.standsAt (h₁.standsAt hc))
    (Nat.le_trans h₂.length_le h₁.length_le)) ?_
  rintro b _ c₃ - ⟨inner, rfl, ho₃, hnodes⟩
  have hoffset : c₃.offset = c.offset + Text.size (Item.rule selector between b).text := by
    rw [size_text_rule]
    omega
  refine ⟨_, rfl, hoffset, _, rfl, fun before ↦ ?_⟩
  rw [ho₂, ho₁] at hnodes
  rw [Item.toNode, ← hoffset]
  exact .rule hselector hnodes

omit hbody in
/-- The parameters of an at-rule, where it has any, are what their pair covers. -/
theorem agrees_params {c₀ : Cursor} (hc : css.StandsAt c₀.offset c₀.rest) :
    Agrees grammar (optional Grammar.params)
      (Expr.opt (.inOrder [.call .atAfterName, .call .atParams])) c₀ fun params ps c' ↦
      c'.offset = c₀.offset + Text.size (paramsText params) ∧
        ParamsMatched css ps (params.elim [] Prod.snd) := by
  have h : Agrees grammar Grammar.params (.inOrder [.call .atAfterName, .call .atParams]) c₀
      fun params ps c' ↦ c'.offset = c₀.offset + Text.size (paramsText (some params)) ∧
        ParamsMatched css ps params.2 := by
    refine .bind (agrees_atomic hc rfl Lexeme.recognizes_spaces Lexeme.exact_spaces) ?_
    rintro space _ c₁ h₁ ⟨rfl, ho₁, -⟩
    refine .bind_pure (agrees_atomic (h₁.standsAt hc) rfl Lexeme.recognizes_prelude
      Lexeme.productive_prelude.1) ?_
    rintro params _ c₂ - ⟨rfl, ho₂, hparams⟩
    refine ⟨_, rfl, ?_, .some hparams⟩
    rw [ho₂, ho₁, paramsText, Option.elim_some, Text.size_append, Nat.add_assoc]
  refine h.optional.mono ?_
  rintro params? ps c' - (⟨params, rfl, h⟩ | ⟨rfl, rfl, rfl⟩)
  · exact h
  · exact ⟨rfl, .none⟩

/-- What ends an at-rule, where it does not end with its parameters, is white space in front of a
semicolon, or a block behind white space. -/
theorem agrees_atEnd {c₀ : Cursor} (hc : css.StandsAt c₀.offset c₀.rest)
    (hlength : c₀.rest.length ≤ c.rest.length) :
    Agrees grammar (Grammar.atEnd body)
      (.firstOf [.inOrder [.call .atBetween, .call .block],
        .inOrder [.call .atBetween, .and (RuleName.lit ';')]]) c₀ fun e ps c' ↦
      (e.2 = none ∧ c'.offset = c₀.offset + Text.size e.1 ∧ ∃ s, ps = [.mk .atBetween s []]) ∨
      ∃ b s s' inner, e.2 = some b ∧
        c'.offset = c₀.offset + Text.size e.1 + 1 + Text.size b.text + 1 ∧
        ps = [.mk .atBetween s [], .mk .block s' inner] ∧
        List.Forall₂ (NodeMatched css) inner
          (b.contents (c₀.offset + Text.size e.1 + 1) false).nodes := by
  refine .factor (.bind (agrees_atomic hc rfl Lexeme.recognizes_spaces Lexeme.exact_spaces) ?_)
  rintro space _ c₁ h₁ ⟨rfl, ho₁, -⟩
  refine .orElse (.bind_pure (agrees_block hbody (h₁.standsAt hc)
    (Nat.le_trans h₁.length_le hlength)) ?_) (.bind_pure (agrees_ahead (Lexeme.decides_lit ';')) ?_)
  · rintro b _ c₂ - ⟨inner, rfl, ho₂, hnodes⟩
    rw [ho₁] at ho₂ hnodes
    exact ⟨_, rfl, .inr ⟨b, _, _, inner, rfl, ho₂, rfl, hnodes⟩⟩
  · rintro _ _ c₂ - ⟨rfl, rfl, -⟩
    exact ⟨_, rfl, .inl ⟨rfl, ho₁, _, rfl⟩⟩

theorem agrees_atRule (hc : css.StandsAt c.offset c.rest) :
    Agrees grammar (Grammar.atRule body) (.call .atRule) c (ItemMatched css c) := by
  refine .call_normal rfl <| .named _ <| .bind (agrees_char '@') ?_
  rintro _ _ c₁ h₁ ⟨rfl, ho₁, -⟩
  refine .bind (agrees_atomic (h₁.standsAt hc) rfl Lexeme.recognizes_atName
    Lexeme.productive_atName.1) ?_
  rintro name _ c₂ h₂ ⟨rfl, ho₂, hname⟩
  replace h₂ := h₁.trans h₂
  refine .bind (agrees_params (h₂.standsAt hc)) ?_
  rintro params ps c₃ h₃ ⟨ho₃, hparams⟩
  replace h₃ := h₂.trans h₃
  refine .bind_pure (agrees_atEnd hbody (h₃.standsAt hc) h₃.length_le).optional ?_
  have hstart : c₃.offset = c.offset + 1 + Text.size name + Text.size (paramsText params) := by
    rw [ho₃, ho₂, ho₁]
    rfl
  rintro e? ps' c₄ - (⟨⟨between, b?⟩, rfl, hend⟩ | ⟨rfl, rfl, rfl⟩) <;>
    simp only [List.cons_append, List.nil_append]
  · rcases hend with ⟨rfl, ho₄, s, rfl⟩ | ⟨b, s, s', inner, rfl, ho₄, rfl, hnodes⟩
    · have hoffset : c₄.offset =
          c.offset + Text.size (Item.statement name params (some between)).text := by
        rw [size_text_statement, ho₄, hstart]
        simp only [Option.getD_some]
        omega
      refine ⟨_, rfl, hoffset, _, rfl, fun before ↦ ?_⟩
      rw [Item.toNode, ← hoffset]
      exact .statement hname hparams (.inr ⟨s, rfl⟩)
    · have hoffset : c₄.offset =
          c.offset + Text.size (Item.atBlock name params between b).text := by
        rw [size_text_atBlock, ho₄, hstart]
        simp only
        omega
      refine ⟨_, rfl, hoffset, _, rfl, fun before ↦ ?_⟩
      rw [hstart] at hnodes
      rw [Item.toNode, ← hoffset]
      exact .atBlock hname hparams hnodes
  · have hoffset : c₄.offset = c.offset + Text.size (Item.statement name params none).text := by
      rw [size_text_statement, hstart, Option.getD_none, Text.size_nil]
      omega
    refine ⟨_, rfl, hoffset, _, rfl, fun before ↦ ?_⟩
    rw [Item.toNode, ← hoffset]
    exact .statement hname hparams (.inl rfl)

theorem agrees_item (hc : css.StandsAt c.offset c.rest) :
    Agrees grammar (Grammar.item body) (.call .node) c (ItemMatched css c) :=
  .call_silent rfl <| (agrees_atRule hbody hc).orElse <| (agrees_comment hc).orElse <|
    (agrees_rule hbody hc).orElse (agrees_decl hc)

end Items

/-! ## Bodies -/

/-- An item that starts with no semicolon takes something of the text. -/
theorem Item.Reads.length_lt {s r : Text} {i : Item} (h : Item.Reads s i r)
    (hs : s.head? ≠ some ';') : r.length < s.length := by
  have hne := List.length_pos_iff.2 (h.wellFormed hs).text_start.1
  rw [← h.append, List.length_append]
  omega

/-- With fuel for every character, a body is read, and it is what its rule matches. -/
theorem exists_body {css : Text} {fuel : Nat} {c : Cursor} (hc : css.StandsAt c.offset c.rest)
    (hfuel : c.rest.length < fuel) :
    ∃ b ps c', (Grammar.body fuel).value c = some (b, c') ∧
      Matches grammar false (RuleName.expr .body) c (some (ps, c')) ∧ BodyMatched css c b ps c' := by
  induction fuel generalizing c with
  | zero => omega
  | succ fuel ih =>
    obtain ⟨gap, r, hgap⟩ : ∃ gap r, Lexeme.gap c.rest = some (gap, r) := ⟨_, _, rfl⟩
    have hm₁ : Matches grammar false (.call .gap) c (some ([], advance c gap r)) := by
      have h := Lexeme.recognizes_gap (q := false) c (Nat.le_refl _)
      rwa [hgap] at h
    have hv₁ : (Parser.lexeme Lexeme.gap : Parser Symbol Text).value c =
        some (gap, advance c gap r) := by
      rw [Parser.value_lexeme, hgap]
      rfl
    have hle := hm₁.behind.length_le
    rw [Grammar.body, Parser.value_bind, hv₁, Option.bind_some]
    have hitem := agrees_item (c := advance c gap r) (fun c' hc' hlength ↦ by
      obtain ⟨b, ps, c'', hv, hm, hb⟩ := ih hc' (by omega)
      exact .call_silent rfl (.succeeds hv hm hb)) (hm₁.behind.standsAt hc)
    cases hitem with
    | fails hv₂ hm₂ =>
      refine ⟨.done gap, [], advance c gap r, ?_,
        .star_seq_stops (.seq_fails_second hm₁ hm₂) hm₁, rfl, fun _ ↦ .nil⟩
      rw [Parser.value_bind, Parser.value_optional, hv₂]
      rfl
    | @succeeds i _ c₂ hv₂ hm₂ hi =>
      obtain ⟨ho₂, p, rfl, hnode⟩ := hi
      have hlt := (reads_of_value_item (fun h ↦ reads_of_value_body fuel h) hv₂).length_lt
        (Lexeme.head?_of_gap hgap)
      have h₂ := hm₂.behind.standsAt (hm₁.behind.standsAt hc)
      obtain ⟨b, ps, c₃, hv₃, hm₃, ho₃, hnodes⟩ := ih h₂ (by omega)
      refine ⟨.item gap i b, p :: ps, c₃, ?_, .star_seq_goes_on (.seq hm₁ hm₂) hm₃, ?_,
        fun unended ↦ .cons (hnode _) ?_⟩
      · rw [Parser.value_bind, Parser.value_optional, hv₂]
        change ((Grammar.body fuel >>= fun rest ↦ pure (Body.item gap i rest))).value c₂ = _
        rw [Parser.value_bind, hv₃]
        rfl
      · rw [ho₃, ho₂, Body.text, Text.size_append, Text.size_append, ← Nat.add_assoc,
          ← Nat.add_assoc]
        rfl
      · rw [ho₂] at hnodes
        exact hnodes _

theorem agrees_body {css : Text} {fuel : Nat} {c : Cursor} (hc : css.StandsAt c.offset c.rest)
    (hfuel : c.rest.length < fuel) :
    Agrees grammar (Grammar.body fuel) (.call .body) c (BodyMatched css c) := by
  obtain ⟨b, ps, c', hv, hm, hb⟩ := exists_body hc hfuel
  exact .call_silent rfl (.succeeds hv hm hb)

/-! ## Stylesheets -/

/-- The tree of a stylesheet is what the pairs of its match say. The end of the text leaves a pair
too. -/
def RootMatched (css : Text) (ps : List (Pair RuleName)) (root : Root) : Prop :=
  ∃ inner, ps = [.mk .stylesheet ⟨0, Text.size css⟩
      (inner ++ [.mk .endOfInput ⟨Text.size css, Text.size css⟩ []])] ∧
    List.Forall₂ (NodeMatched css) inner root.nodes ∧ root.source = some ⟨0, Text.size css⟩

theorem agrees_endOfInput {c : Cursor} :
    Agrees grammar (Parser.named .endOfText (Parser.ahead List.isEmpty) : Parser Symbol Unit)
      (.call .endOfInput) c fun _ ps c' ↦
      ps = [.mk .endOfInput ⟨c.offset, c.offset⟩ []] ∧ c' = c ∧ c.rest = [] := by
  refine .call_normal rfl (.named _ ?_)
  obtain ⟨_ | ⟨x, t⟩, offset⟩ := c
  · exact .succeeds rfl (.not (.char_fails nofun)) ⟨rfl, rfl, rfl⟩
  · exact .fails rfl (.not_fails (.char rfl rfl))

theorem agrees_stylesheet (css : Text) :
    Agrees grammar (Grammar.stylesheet css.length) (.call .stylesheet) ⟨css, 0⟩ fun b ps _ ↦
      RootMatched css ps b.toRoot := by
  refine .call_normal rfl <| .named _ <| .start_seq rfl <|
    .bind (agrees_body (Text.standsAt_zero css) (Nat.lt_succ_self css.length)) ?_
  rintro b inner c₁ ⟨l, hl, hend⟩ ⟨hoffset, hnodes⟩
  refine .bind_pure agrees_endOfInput ?_
  rintro _ _ c₂ - ⟨rfl, rfl, hrest⟩
  rw [hrest, List.append_nil] at hl
  obtain rfl : css = l := hl
  rw [Nat.zero_add] at hend hoffset
  refine ⟨b, rfl, inner, by rw [hend], hnodes false, ?_⟩
  rw [Body.toRoot, ← hoffset, hend]

/-- A text is read and matched, or it is neither. -/
theorem parse_matches (css : Text) :
    (∃ root ps c, parse css = .ok root ∧
      Matches grammar false (.call .stylesheet) ⟨css, 0⟩ (some (ps, c)) ∧
      RootMatched css ps root) ∨
    ∃ d, parse css = .error d ∧ Matches grammar false (.call .stylesheet) ⟨css, 0⟩ none := by
  rw [parse, parseBody]
  cases agrees_stylesheet css with
  | fails hv hm =>
    rw [Parser.value] at hv
    simp only [hv]
    exact .inr ⟨_, rfl, hm⟩
  | succeeds hv hm hroot =>
    rw [Parser.value] at hv
    simp only [hv]
    exact .inl ⟨_, _, _, rfl, hm, hroot⟩

/-- A text can be read exactly if the rule of stylesheets matches it, and it cannot be read exactly
if that rule fails. The tree of a text is what its match says. -/
theorem parse_iff_matches (css : Text) :
    ((∃ root, parse css = .ok root) ↔
      ∃ m, Matches grammar false (.call .stylesheet) ⟨css, 0⟩ (some m)) ∧
    ((∃ d, parse css = .error d) ↔ Matches grammar false (.call .stylesheet) ⟨css, 0⟩ none) ∧
    ∀ root ps c, parse css = .ok root →
      Matches grammar false (.call .stylesheet) ⟨css, 0⟩ (some (ps, c)) →
      RootMatched css ps root := by
  rcases parse_matches css with ⟨root, ps, c, hparse, hm, hroot⟩ | ⟨d, hparse, hm⟩
  · refine ⟨⟨fun _ ↦ ⟨_, hm⟩, fun _ ↦ ⟨root, hparse⟩⟩, ⟨?_, ?_⟩, ?_⟩
    · rintro ⟨d, hd⟩
      cases hparse.symm.trans hd
    · intro hfails
      cases hm.deterministic hfails
    · intro root' ps' c' hparse' hm'
      cases hparse.symm.trans hparse'
      cases hm.deterministic hm'
      exact hroot
  · refine ⟨⟨?_, ?_⟩, ⟨fun _ ↦ hm, fun _ ↦ ⟨d, hparse⟩⟩, ?_⟩
    · rintro ⟨root, hroot⟩
      cases hparse.symm.trans hroot
    · rintro ⟨m, hm'⟩
      cases hm.deterministic hm'
    · intro root ps c hroot
      cases hparse.symm.trans hroot

/-- A text with nodes of all kinds that is matched as it is read, and one whose block is not closed,
which the rule does not match. -/
theorem parse_iff_matches_nested :
    (∃ root ps c, parse "@m x\x7b/*c*/ a\x7bb:c\x7d\x7d".toList = .ok root ∧
      Matches grammar false (.call .stylesheet) ⟨"@m x\x7b/*c*/ a\x7bb:c\x7d\x7d".toList, 0⟩
        (some (ps, c)) ∧
      RootMatched "@m x\x7b/*c*/ a\x7bb:c\x7d\x7d".toList ps root ∧
      root.walk.map Node.source = [some ⟨0, 18⟩, some ⟨5, 10⟩, some ⟨11, 17⟩, some ⟨13, 16⟩]) ∧
    Matches grammar false (.call .stylesheet) ⟨"a\x7b".toList, 0⟩ none := by
  constructor
  · have key : (parse "@m x\x7b/*c*/ a\x7bb:c\x7d\x7d".toList).map
        (fun root ↦ root.walk.map Node.source) =
        .ok [some ⟨0, 18⟩, some ⟨5, 10⟩, some ⟨11, 17⟩, some ⟨13, 16⟩] := by
      decide +kernel
    obtain ⟨root, hparse, hsources⟩ := exists_of_map_eq_ok key
    obtain ⟨⟨ps, c⟩, hm⟩ := (parse_iff_matches _).1.1 ⟨root, hparse⟩
    exact ⟨root, ps, c, hparse, hm, (parse_iff_matches _).2.2 root ps c hparse hm, hsources⟩
  · refine (parse_iff_matches _).2.1.1 ?_
    cases h : parse "a\x7b".toList with
    | error d => exact ⟨d, rfl⟩
    | ok root =>
      have key : (parse "a\x7b".toList).isOk = false := by decide +kernel
      rw [h] at key
      cases key

end EmbeddedCss.Css
