import EmbeddedCss.Proofs.Css.Provenance
import EmbeddedCss.Proofs.Css.Tracing

/-! # Spans tile the text

The spans of the nodes of a tree that was read lie in the text as the nodes lie in the tree. The
children of a container stand one behind the other between its braces, with nothing but white space
and semicolons around them, and a node without a block covers exactly the text that it is printed
as. -/

namespace EmbeddedCss

/-! ## Tilings -/

/-- The stretches from `start` to `stop` in front of, between and behind some spans. -/
def Span.gaps (start stop : Nat) : List Span → List Span
  | [] => [⟨start, stop⟩]
  | s :: rest => ⟨start, s.start⟩ :: gaps s.stop stop rest

/-- Spans lie in a stretch of text one behind the other, and leave out only white space and
semicolons. -/
structure Tiling (css : Text) (content : Span) (spans : List Span) : Prop where
  nonempty : ∀ s ∈ spans, s.start < s.stop
  ordered : spans.Pairwise fun s t ↦ s.stop ≤ t.start
  within : ∀ s ∈ spans, content.start ≤ s.start ∧ s.stop ≤ content.stop
  gaps : ∀ g ∈ Span.gaps content.start content.stop spans, ∀ c ∈ Text.slice css g,
    Text.isSpace c = true ∨ c = ';'

namespace Tiling

variable {css : Text} {start stop : Nat} {spans : List Span}

theorem nil (h : ∀ c ∈ Text.slice css ⟨start, stop⟩, Text.isSpace c = true ∨ c = ';') :
    Tiling css ⟨start, stop⟩ [] where
  nonempty := by simp
  ordered := .nil
  within := by simp
  gaps := by simpa [Span.gaps] using h

/-- A span in front of others that tile the rest of a stretch. -/
theorem cons {s : Span} (hstart : start ≤ s.start) (hspan : s.start < s.stop)
    (hstop : s.stop ≤ stop)
    (hgap : ∀ c ∈ Text.slice css ⟨start, s.start⟩, Text.isSpace c = true ∨ c = ';')
    (h : Tiling css ⟨s.stop, stop⟩ spans) : Tiling css ⟨start, stop⟩ (s :: spans) where
  nonempty := List.forall_mem_cons.2 ⟨hspan, h.nonempty⟩
  ordered := List.pairwise_cons.2 ⟨fun t ht ↦ (h.within t ht).1, h.ordered⟩
  within := by
    intro t ht
    rcases List.mem_cons.1 ht with rfl | ht
    · exact ⟨hstart, hstop⟩
    · have := h.within t ht
      dsimp only at this ⊢
      omega
  gaps := by
    intro g hg
    rcases List.mem_cons.1 hg with rfl | hg
    · exact hgap
    · exact h.gaps g hg

end Tiling

namespace Css

/-- The spans of some nodes tile a stretch of text. -/
def Tiled (css : Text) (content : Span) (ns : List Node) : Prop :=
  ∃ spans : List Span, ns.map Node.source = spans.map some ∧ Tiling css content spans

/-- A gap holds nothing but white space and semicolons. -/
theorem isSpace_or_of_mem_gap {s gap r : Text} (h : Lexeme.gap s = some (gap, r)) :
    ∀ c ∈ gap, Text.isSpace c = true ∨ c = ';' := by
  obtain ⟨rfl, -⟩ := Prod.mk.inj (Option.some.inj h)
  intro c hc
  simpa using List.all_eq_true.1 List.all_takeWhile c hc

/-- The nodes of a body tile the stretch that the body takes. -/
theorem Body.Reads.tiled {css : Text} : {s r : Text} → {b : Body} → Body.Reads s b r →
    {offset : Nat} → css.StandsAt offset s → (unended : Bool) →
    Tiled css ⟨offset, offset + Text.size b.text⟩ (b.contents offset unended).nodes
  | _, _, .done gap, .done h, offset, hs, unended => by
    refine ⟨[], rfl, .nil ?_⟩
    rw [← Lexeme.exact_gap h] at hs
    rw [Body.text, hs.slice_eq]
    exact isSpace_or_of_mem_gap h
  | _, _, .item gap i rest, .item h₁ h₂ h₃, offset, hs, unended => by
    have hitem := hs.read Lexeme.exact_gap h₁
    have hpos := Text.size_pos (h₂.wellFormed (Lexeme.head?_of_gap h₁)).text_start.1
    obtain ⟨spans, hspans, htiling⟩ := h₃.tiled (hitem.item h₂) i.endsInSemicolon
    have hsize : offset + Text.size (Body.item gap i rest).text =
        offset + Text.size gap + Text.size i.text + Text.size rest.text := by
      simp [Body.text]
      omega
    refine ⟨⟨offset + Text.size gap, offset + Text.size gap + Text.size i.text⟩ :: spans, ?_, ?_⟩
    · simp only [Body.contents, List.map_cons, source_toNode, hspans]
    · rw [hsize]
      refine .cons (by simp) (by simpa using hpos) (by simp) ?_ htiling
      rw [← Lexeme.exact_gap h₁] at hs
      rw [hs.slice_eq]
      exact isSpace_or_of_mem_gap h₁

/-! ## What a node covers -/

/-- The text in front of the opening brace of a node. -/
def Node.header : Node → Text
  | .rule selector _ layout _ => selector ++ layout.between.getD defaultBetween
  | .atRule name params _ layout _ =>
    '@' :: name ++ (if params = [] then [] else layout.afterName.getD [' '] ++ params) ++
      layout.between.getD defaultBetween
  | .decl .. | .comment .. => []

/-- The stretch between the braces of a node that covers `span`. -/
def Node.content (n : Node) (span : Span) : Span :=
  ⟨span.start + Text.size n.header + 1, span.stop - 1⟩

/-- A node covers a span of a text: a node without a block its own text, as it is printed without
anything in front of it and without the semicolon behind it, and a node with a block its header and
the braces, between which its children tile the text. -/
structure Node.Covers (css : Text) (n : Node) (span : Span) : Prop where
  source : n.source = some span
  nonempty : span.start < span.stop
  start : css.IsPlace span.start
  stop : css.IsPlace span.stop
  leaf : n.children? = none → Text.slice css span = (n.chunks false).flatten
  block : ∀ ns, n.children? = some ns →
    Text.slice css span = n.header ++ '{' :: Text.slice css (n.content span) ++ ['}'] ∧
      Tiled css (n.content span) ns

/-- The text of an item without a block is that of its chunks. -/
theorem Item.flatten_chunks_of_leaf {i : Item} {start : Nat} {before : Text}
    (h : (i.toNode start before).children? = none) : i.chunks.flatten = i.text := by
  cases i with
  | comment lexeme => simp [Item.chunks, Item.text]
  | rule selector between body => cases h
  | statement name params between => simp [Item.chunks, Item.text]
  | atBlock name params between body => cases h
  | decl property colon value => simp [Item.chunks, Item.text]

theorem paramsText_eq {params : Option (Text × Text)} (h : ParamsWritten params) :
    (if params.elim [] Prod.snd = [] then []
      else (params.map Prod.fst).getD [' '] ++ params.elim [] Prod.snd) = paramsText params := by
  cases params with
  | none => rfl
  | some p => simp [paramsText, h p rfl]

/-- A block covers what stands in front of it and its braces, and its nodes tile the stretch between
the braces. -/
theorem Body.Reads.covers_block {css s s' r head : Text} {b : Body} {start stop : Nat}
    (hs : css.StandsAt start s) (hhead : head ++ '{' :: s' = s) (hb : Body.Reads s' b ('}' :: r))
    (hstop : stop = start + Text.size (head ++ '{' :: b.text ++ ['}'])) :
    Text.slice css ⟨start, stop⟩ =
        head ++ '{' :: Text.slice css ⟨start + Text.size head + 1, stop - 1⟩ ++ ['}'] ∧
      Tiled css ⟨start + Text.size head + 1, stop - 1⟩
        (b.contents (start + Text.size head + 1) false).nodes := by
  subst hhead
  have hbody : css.StandsAt (start + Text.size head + 1) s' := hs.advance.tail
  have hend : stop - 1 = start + Text.size head + 1 + Text.size b.text := by
    simp [hstop, show '{'.utf8Size = 1 from rfl, show '}'.utf8Size = 1 from rfl]
    omega
  refine ⟨?_, hend ▸ hb.tiled hbody false⟩
  rw [← hb.append] at hs hbody
  have hspan : css.StandsAt start ((head ++ '{' :: b.text ++ ['}']) ++ r) := by simpa using hs
  rw [hend, hbody.slice_eq, hstop, hspan.slice_eq]

/-- A node with a block covers its header and the braces, and its children tile the stretch between
the braces. -/
theorem Item.Reads.covers_block {css s r : Text} {i : Item} (h : Item.Reads s i r)
    (hi : i.WellFormed) {start : Nat} (hs : css.StandsAt start s) {before : Text} {n : Node}
    (hn : n = i.toNode start before) {ns : List Node} (hns : n.children? = some ns) :
    Text.slice css ⟨start, start + Text.size i.text⟩ =
        n.header ++
          '{' :: Text.slice css (n.content ⟨start, start + Text.size i.text⟩) ++ ['}'] ∧
      Tiled css (n.content ⟨start, start + Text.size i.text⟩) ns := by
  subst hn
  cases h with
  | comment h => cases hns
  | @rule _ selector s₁ between s₂ _ body h₁ h₂ hb =>
    cases hns
    have hhead : (selector ++ between) ++ '{' :: s₂ = s := by
      rw [List.append_assoc, Lexeme.exact_spaces h₂, Lexeme.productive_prelude.1 h₁]
    have hoffset : start + Text.size selector + Text.size between + 1 =
        start + Text.size (selector ++ between) + 1 := by
      rw [Text.size_append, Nat.add_assoc start]
    rw [hoffset]
    exact hb.covers_block hs hhead rfl
  | bare h₁ h₂ => cases hns
  | statement h₁ h₂ h₃ => cases hns
  | @atBlock t name s₁ s₂ between s₃ _ params body h₁ h₂ h₃ hb =>
    cases hns
    have hhead : ('@' :: name ++ paramsText params ++ between) ++ '{' :: s₃ = '@' :: t := by
      rw [List.append_assoc, Lexeme.exact_spaces h₃, List.append_assoc, h₂.append,
        List.cons_append, Lexeme.productive_atName.1 h₁]
    have hoffset : start + 1 + Text.size name + Text.size (paramsText params) +
        Text.size between + 1 =
        start + Text.size ('@' :: name ++ paramsText params ++ between) + 1 := by
      simp [show '@'.utf8Size = 1 from rfl]
      omega
    have hheader : Node.header ((Item.atBlock name params between body).toNode start before) =
        '@' :: name ++ paramsText params ++ between := by
      rw [Item.toNode, Node.header, paramsText_eq hi.1]
      rfl
    rw [Node.content, hheader, hoffset]
    exact hb.covers_block hs hhead rfl
  | decl h₁ h₂ h₃ h₄ =>
    obtain ⟨_, _, _, h⟩ := exists_ofValue_eq _ _ _ _
    rw [Item.toNode, h] at hns
    cases hns

/-- A node without a block covers its own text. -/
theorem Item.Reads.covers_leaf {css s r : Text} {i : Item} (h : Item.Reads s i r)
    (hi : i.WellFormed) {start : Nat} (hs : css.StandsAt start s) {before : Text}
    (hleaf : (i.toNode start before).children? = none) :
    Text.slice css ⟨start, start + Text.size i.text⟩ =
      ((i.toNode start before).chunks false).flatten := by
  rw [← h.append] at hs
  rw [hs.slice_eq, hi.chunks_toNode, Bool.and_false, terminator_false, List.append_nil,
    Item.flatten_chunks_of_leaf hleaf]

/-- A node covers the span that it was read from. -/
theorem Node.ReadAt.covers {css s r : Text} {n : Node} {start : Nat} {i : Item}
    (h : n.ReadAt css start s i r) : n.Covers css ⟨start, start + Text.size i.text⟩ where
  source := h.source
  nonempty := Nat.lt_add_of_pos_right (Text.size_pos h.wellFormed.text_start.1)
  start := ⟨s, h.standsAt⟩
  stop := ⟨r, h.standsAt.item h.reads⟩
  leaf hleaf := by
    obtain ⟨before, rfl⟩ := h.eq
    exact h.reads.covers_leaf h.wellFormed h.standsAt hleaf
  block ns hns := by
    obtain ⟨before, hn⟩ := h.eq
    exact h.reads.covers_block h.wellFormed h.standsAt hn hns

/-- **Spans tile the text.** A tree that was read covers its whole text. The nodes of each list of
siblings stand one behind the other in what their container holds, with nothing but white space and
semicolons around them, and each node covers the text that it is printed as. -/
theorem tiled_of_parse {css : Text} {root : Root} (h : parse css = .ok root) :
    root.source = some ⟨0, Text.size css⟩ ∧ Tiled css ⟨0, Text.size css⟩ root.nodes ∧
      ∀ n ∈ root.walk, ∃ span, n.Covers css span := by
  have hcovers : ∀ n ∈ root.walk, ∃ span, n.Covers css span := by
    intro n hn
    obtain ⟨start, s, i, r, hread⟩ := exists_readAt_of_parse h hn
    exact ⟨_, hread.covers⟩
  obtain ⟨b, hb, rfl⟩ := reads_of_parse h
  have hcss : b.text = css := by simpa using hb.append
  have htiled := hb.tiled (Text.standsAt_zero css) false
  rw [Nat.zero_add, hcss] at htiled
  exact ⟨by rw [← hcss]; rfl, htiled, hcovers⟩

/-- The block of an at-rule with a stray semicolon in front of a declaration, white space in front
of the semicolon that ends it, and a comment at its end. -/
theorem tiled_of_parse_block : ∃ root,
    parse "@media (é)\x7b;a: b ;\n/*c*/\x7d".toList = .ok root ∧
      root.walk.map Node.source = [some ⟨0, 26⟩, some ⟨13, 18⟩, some ⟨20, 25⟩] ∧
      root.source = some ⟨0, 26⟩ ∧
        Tiled "@media (é)\x7b;a: b ;\n/*c*/\x7d".toList ⟨0, 26⟩ root.nodes ∧
          ∀ n ∈ root.walk,
            ∃ span, n.Covers "@media (é)\x7b;a: b ;\n/*c*/\x7d".toList span := by
  have key : (parse "@media (é)\x7b;a: b ;\n/*c*/\x7d".toList).map
      (fun root ↦ root.walk.map Node.source) =
        .ok [some ⟨0, 26⟩, some ⟨13, 18⟩, some ⟨20, 25⟩] := by decide +kernel
  obtain ⟨root, h, hwalk⟩ := exists_of_map_eq_ok key
  exact ⟨root, h, hwalk, tiled_of_parse h⟩

end Css

end EmbeddedCss
