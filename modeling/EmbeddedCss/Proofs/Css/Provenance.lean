import EmbeddedCss.Proofs.Css.Terminator

/-! # Where nodes come from

A node of a tree that was read keeps the span it was read from. The main statement is that this span
can be trusted at every depth: what stands in the text at the start of the span is read as an item,
and the node is the node of that item. What holds of an item where it is read holds so of all nodes
of a tree, without another induction over the tree. -/

namespace EmbeddedCss

/-! ## Places behind lexemes -/

section

variable {css s l r : Text} {offset : Nat}

/-- Behind a lexeme stands what it leaves. -/
theorem Text.StandsAt.read {a : Scanner} (h : css.StandsAt offset s) (ha : a.Exact)
    (hread : a s = some (l, r)) : css.StandsAt (offset + Text.size l) r := by
  rw [← ha hread] at h
  exact h.advance

theorem Text.StandsAt.tail {c : Char} (h : css.StandsAt offset (c :: r)) :
    css.StandsAt (offset + c.utf8Size) r := by
  change css.StandsAt offset ([c] ++ r) at h
  exact h.advance

theorem Text.StandsAt.params {params : Option (Text × Text)} (h : css.StandsAt offset s)
    (hparams : Css.ParamsRead s params r) :
    css.StandsAt (offset + Text.size (Css.paramsText params)) r := by
  rw [← hparams.append] at h
  exact h.advance

theorem Text.StandsAt.item {i : Css.Item} (h : css.StandsAt offset s) (hi : Css.Item.Reads s i r) :
    css.StandsAt (offset + Text.size i.text) r := by
  rw [← hi.append] at h
  exact h.advance

end

namespace Css

/-! ## Nodes of a tree -/

/-- A walk leads to a node and to the nodes below it. -/
theorem Node.mem_walk_iff {m n : Node} :
    n ∈ m.walk ↔ n = m ∨ ∃ ms, m.children? = some ms ∧ n ∈ Node.walkAll ms := by
  cases m with
  | atRule name params nodes => cases nodes <;> simp [Node.walk, Node.children?]
  | _ => simp [Node.walk, Node.children?]

/-- A node was read where it stands in a text: an item is read there, and the node is that of the
item. -/
structure Node.ReadAt (css : Text) (n : Node) (start : Nat) (s : Text) (i : Item) (r : Text) :
    Prop where
  /-- The text from the start of the node on. -/
  standsAt : css.StandsAt start s
  reads : Item.Reads s i r
  wellFormed : i.WellFormed
  eq : ∃ before, n = i.toNode start before

theorem Node.ReadAt.source {css s r : Text} {n : Node} {start : Nat} {i : Item}
    (h : n.ReadAt css start s i r) : n.source = some ⟨start, start + Text.size i.text⟩ := by
  obtain ⟨before, rfl⟩ := h.eq
  exact source_toNode start before i

mutual

theorem Item.Reads.exists_readAt {css : Text} : {s r : Text} → {i : Item} → Item.Reads s i r →
    {start : Nat} → css.StandsAt start s → {before : Text} → {ms : List Node} →
    (i.toNode start before).children? = some ms → {n : Node} → n ∈ Node.walkAll ms →
    ∃ start s i r, n.ReadAt css start s i r
  | _, _, _, .comment _, _, _, _, _, hms, _, _ => by cases hms
  | _, _, _, .rule h₁ h₂ hb, _, hs, _, _, hms, _, hn => by
    cases hms
    have hselector := hs.read Lexeme.productive_prelude.1 h₁
    exact hb.exists_readAt (hselector.read Lexeme.exact_spaces h₂).tail hn
  | _, _, _, .bare _ _, _, _, _, _, hms, _, _ => by cases hms
  | _, _, _, .statement _ _ _, _, _, _, _, hms, _, _ => by cases hms
  | _, _, _, .atBlock h₁ h₂ h₃ hb, _, hs, _, _, hms, _, hn => by
    cases hms
    have hname := hs.tail.read Lexeme.productive_atName.1 h₁
    exact hb.exists_readAt ((hname.params h₂).read Lexeme.exact_spaces h₃).tail hn
  | _, _, _, .decl _ _ _ _, _, _, _, _, hms, _, _ => by
    obtain ⟨_, _, _, h⟩ := exists_ofValue_eq _ _ _ _
    rw [Item.toNode, h] at hms
    cases hms

/-- The nodes of what is read, and those below them, were read where they stand. -/
theorem Body.Reads.exists_readAt {css : Text} : {s r : Text} → {b : Body} → Body.Reads s b r →
    {offset : Nat} → css.StandsAt offset s → {unended : Bool} → {n : Node} →
    n ∈ Node.walkAll (b.contents offset unended).nodes → ∃ start s i r, n.ReadAt css start s i r
  | _, _, _, .done _, _, _, _, _, hn => by cases hn
  | _, _, _, .item h₁ h₂ h₃, _, hs, _, _, hn => by
    have hitem := hs.read Lexeme.exact_gap h₁
    rcases List.mem_append.1 hn with hn | hn
    · rcases Node.mem_walk_iff.1 hn with rfl | ⟨ms, hms, hn⟩
      · exact ⟨_, _, _, _, hitem, h₂, h₂.wellFormed (Lexeme.head?_of_gap h₁), _, rfl⟩
      · exact h₂.exists_readAt hitem hms hn
    · exact h₃.exists_readAt (hitem.item h₂) hn

end

/-- The nodes of a tree, at every depth, were read where they stand. -/
theorem exists_readAt_of_parse {css : Text} {root : Root} (h : parse css = .ok root) {n : Node}
    (hn : n ∈ root.walk) : ∃ start s i r, n.ReadAt css start s i r := by
  obtain ⟨b, hb, rfl⟩ := reads_of_parse h
  exact hb.exists_readAt (Text.standsAt_zero css) hn

end Css

end EmbeddedCss
