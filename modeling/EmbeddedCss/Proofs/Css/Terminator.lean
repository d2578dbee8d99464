import EmbeddedCss.Proofs.Css.Printing
import EmbeddedCss.Proofs.Text.Place
import Mathlib.Data.List.Chain

/-! # The semicolons that printing adds

The tree does not keep the semicolon that ends a declaration or an at-rule without a block, and the
printer writes one after each such node that has a sibling behind it. The grammar however lets such
a node end without a semicolon in front of another item: `a:":b` is two declarations, since a quote
that is never closed is no value but can start a property.

The main statement is that this is the only difference: a tree that was read prints as its text with
a semicolon put in at the end of each such node. So a text is printed as it was read exactly if it
has no such node. -/

namespace EmbeddedCss

namespace Text

/-- A text with a semicolon put in at a byte offset. -/
def insertSemicolon (offset : Nat) (t : Text) : Text :=
  takeBytes offset t ++ ';' :: dropBytes offset t

@[simp] theorem insertSemicolon_size_append (s t : Text) :
    insertSemicolon (size s) (s ++ t) = s ++ ';' :: t := by
  simp [insertSemicolon]

@[simp] theorem length_insertSemicolon (offset : Nat) (t : Text) :
    (insertSemicolon offset t).length = t.length + 1 := by
  have h := congrArg List.length (takeBytes_append_dropBytes offset t)
  simp only [List.length_append] at h
  simp only [insertSemicolon, List.length_append, List.length_cons]
  omega

/-- Semicolons change a text, except if there are none of them. -/
theorem foldr_insertSemicolon_eq_iff (offsets : List Nat) (t : Text) :
    offsets.foldr insertSemicolon t = t ↔ offsets = [] := by
  have hlength : (offsets.foldr insertSemicolon t).length = t.length + offsets.length := by
    induction offsets with
    | nil => rfl
    | cons o os ih => rw [List.foldr_cons, length_insertSemicolon, ih, List.length_cons]; omega
  constructor
  · intro h
    rw [h] at hlength
    exact List.eq_nil_of_length_eq_zero (by omega)
  · rintro rfl
    rfl

end Text

namespace Css

/-! ## Nodes that lack a semicolon -/

/-- Whether a text has a semicolon at an offset. -/
def semicolonAt (css : Text) (offset : Nat) : Bool := (Text.dropBytes offset css).head? == some ';'

/-- The end of a node that is ended by a semicolon, if the text has none there. -/
def Node.missingAfter (css : Text) (n : Node) : List Nat :=
  if n.endsInSemicolon then
    (n.source.toList.map Span.stop).filter fun stop ↦ !semicolonAt css stop
  else []

mutual

/-- The offsets inside a node at which a semicolon is missing. -/
def Node.missing (css : Text) : Node → List Nat
  | .rule _ ns _ _ => Node.missingAll css ns
  | .atRule _ _ (some ns) _ _ => Node.missingAll css ns
  | .atRule _ _ none _ _ => []
  | .decl .. => []
  | .comment .. => []

/-- The offsets among and inside some siblings at which a semicolon is missing: the end of a node
counts only if there is a sibling behind it. -/
def Node.missingAll (css : Text) : List Node → List Nat
  | [] => []
  | n :: ns =>
    n.missing css ++ (if ns.isEmpty then [] else n.missingAfter css) ++ Node.missingAll css ns

end

/-- The offsets at which a semicolon is missing from the text `css` of a stylesheet. -/
def Root.missing (root : Root) (css : Text) : List Nat := Node.missingAll css root.nodes

/-! ## The same offsets from the concrete syntax -/

mutual

/-- The offsets inside an item that starts at `start` at which a semicolon is missing. -/
def Item.missing (start : Nat) : Item → List Nat
  | .rule selector between body =>
    body.missing (start + Text.size selector + Text.size between + 1) false
  | .atBlock name params between body =>
    body.missing
      (start + 1 + Text.size name + Text.size (paramsText params) + Text.size between + 1) false
  | .comment _ | .statement .. | .decl .. => []

/-- The offsets in a body that starts at `offset` at which a semicolon is missing. The item in front
of it may be `unended`. -/
def Body.missing (offset : Nat) (unended : Bool) : Body → List Nat
  | .done _ => []
  | .item gap item rest =>
    (if unended && gap.head? != some ';' then [offset] else []) ++
      item.missing (offset + Text.size gap) ++
        rest.missing (offset + Text.size gap + Text.size item.text) item.endsInSemicolon

end

theorem source_toNode (start : Nat) (before : Text) (i : Item) :
    (i.toNode start before).source = some ⟨start, start + Text.size i.text⟩ := by
  cases i with
  | decl property colon value =>
    simp only [Item.toNode, Node.ofValue]
    split <;> rfl
  | _ => rfl

theorem missingAfter_toNode (css : Text) (start : Nat) (before : Text) (i : Item) :
    (i.toNode start before).missingAfter css =
      if i.endsInSemicolon && !semicolonAt css (start + Text.size i.text)
      then [start + Text.size i.text] else [] := by
  rw [Node.missingAfter, source_toNode, endsInSemicolon_toNode]
  cases i.endsInSemicolon with
  | false => rfl
  | true => simp [List.filter_cons]

/-- In front of an item, a text has a semicolon exactly if the gap starts with one. -/
theorem semicolonAt_gap {css gap s : Text} {offset : Nat} {i : Item} (hi : i.WellFormed)
    (h : Text.StandsAt css offset (gap ++ (i.text ++ s))) :
    semicolonAt css offset = (gap.head? == some ';') := by
  rw [semicolonAt, h.dropBytes_eq]
  cases gap with
  | cons c gap => rfl
  | nil =>
    obtain ⟨hne, hstart⟩ := hi.text_start
    rw [List.nil_append, List.head?_append, Option.or_of_isSome (List.isSome_head?.2 hne)]
    simpa using hstart

mutual

/-- The node of an item lacks the semicolons that the item lacks. -/
theorem Item.WellFormed.missing_toNode {css : Text} : {i : Item} → i.WellFormed →
    {start : Nat} → {s : Text} → Text.StandsAt css start (i.text ++ s) → (before : Text) →
    (i.toNode start before).missing css = i.missing start
  | .comment _, _, _, _, _, _ => rfl
  | .rule selector between body, ⟨_, _, hb⟩, start, s, h, before => by
    have h' : Text.StandsAt css start
        (selector ++ (between ++ (['{'] ++ (body.text ++ '}' :: s)))) := by
      simpa [Item.text] using h
    have hbody : Text.StandsAt css (start + Text.size selector + Text.size between + 1)
        (body.text ++ '}' :: s) := h'.advance.advance.advance
    simpa [Item.toNode, Node.missing, Item.missing] using hb.missing_contents hbody false
  | .statement name params between, _, _, _, _, _ => rfl
  | .atBlock name params between body, ⟨_, hb⟩, start, s, h, before => by
    have h' : Text.StandsAt css start (['@'] ++ (name ++ (paramsText params ++
        (between ++ (['{'] ++ (body.text ++ '}' :: s)))))) := by
      simpa [Item.text] using h
    have hbody : Text.StandsAt css
        (start + 1 + Text.size name + Text.size (paramsText params) + Text.size between + 1)
        (body.text ++ '}' :: s) := h'.advance.advance.advance.advance.advance
    simpa [Item.toNode, Node.missing, Item.missing] using hb.missing_contents hbody false
  | .decl property colon value, _, start, s, h, before => by
    simp only [Item.toNode, Node.ofValue, Item.missing]
    split <;> rfl

/-- The contents of a body lack the semicolons that the body lacks, except for the one after the
item in front of the body. -/
theorem Body.WellFormed.missing_contents {css : Text} : {b : Body} → b.WellFormed →
    {offset : Nat} → {s : Text} → Text.StandsAt css offset (b.text ++ s) → (unended : Bool) →
    (if unended && !(b.contents offset unended).nodes.isEmpty && !semicolonAt css offset
        then [offset] else []) ++
      Node.missingAll css (b.contents offset unended).nodes = b.missing offset unended
  | .done gap, _, offset, s, h, unended => by
    simp [Body.contents, Body.missing, Node.missingAll]
  | .item gap i rest, ⟨hi, hr⟩, offset, s, h, unended => by
    rw [Body.text, List.append_assoc, List.append_assoc] at h
    have hsemi := semicolonAt_gap hi h
    have hnode := hi.missing_toNode h.advance (cutTerminator unended gap).1
    have hrest := hr.missing_contents h.advance.advance i.endsInSemicolon
    simp only [Body.contents, Body.missing, Node.missingAll, hnode, missingAfter_toNode, ← hrest,
      hsemi, List.isEmpty_cons, Bool.not_false, Bool.and_true, List.append_assoc, bne]
    generalize rest.contents (offset + Text.size gap + Text.size i.text) i.endsInSemicolon = c
    cases c.nodes.isEmpty <;> simp

end

/-! ## What printing adds -/

/-- A gap loses its semicolon if it starts with one and the item in front of it is unended. -/
theorem cutTerminator_eq (unended : Bool) (gap : Text) :
    cutTerminator unended gap =
      if unended && gap.head? == some ';' then (gap.tail, true) else (gap, false) := by
  cases unended with
  | false => rfl
  | true =>
    cases gap with
    | nil => rfl
    | cons c gap =>
      by_cases hc : c = ';'
      · subst hc
        rfl
      · simp [cutTerminator, hc]

/-- The semicolon after an item and the gap without it are the gap in front of the next item, or
that gap with a semicolon put in. -/
theorem flatten_gap (unended : Bool) (gap : Text) :
    (terminator unended ++ chunk (cutTerminator unended gap).1).flatten =
      (if unended && gap.head? != some ';' then [';'] else []) ++ gap := by
  rw [cutTerminator_eq, List.flatten_append, flatten_chunk]
  cases unended with
  | false => rfl
  | true =>
    cases gap with
    | nil => rfl
    | cons c gap => by_cases hc : c = ';' <;> simp [hc]

/-- After the last item the printer writes the gap as it was. -/
theorem flatten_lastGap (unended : Bool) (gap : Text) :
    (terminator (cutTerminator unended gap).2 ++ chunk (cutTerminator unended gap).1).flatten =
      gap := by
  rw [cutTerminator_eq, List.flatten_append, flatten_chunk]
  split
  · rename_i h
    obtain ⟨-, hgap⟩ := Bool.and_eq_true_iff.1 h
    obtain ⟨rest, rfl⟩ := List.head?_eq_some_iff.1 (beq_iff_eq.1 hgap)
    rfl
  · rfl

mutual

/-- Printing an item puts in the semicolons that the item lacks. -/
theorem Item.flatten_chunks : (i : Item) → (u v : Text) →
    u ++ i.chunks.flatten ++ v =
      (i.missing (Text.size u)).foldr Text.insertSemicolon (u ++ i.text ++ v)
  | .comment lexeme, u, v => by simp [Item.chunks, Item.missing, Item.text]
  | .rule selector between body, u, v => by
    have ih := body.flatten_chunks false (u ++ selector ++ between ++ ['{']) ('}' :: v)
    have hsize : Text.size (u ++ selector ++ between ++ ['{']) =
        Text.size u + Text.size selector + Text.size between + 1 := by
      simp only [Text.size_append]
      rfl
    rw [hsize] at ih
    simpa [Item.chunks, Item.missing, Item.text] using ih
  | .statement name params between, u, v => by simp [Item.chunks, Item.missing, Item.text]
  | .atBlock name params between body, u, v => by
    have ih := body.flatten_chunks false
      (u ++ ['@'] ++ name ++ paramsText params ++ between ++ ['{']) ('}' :: v)
    have hsize : Text.size (u ++ ['@'] ++ name ++ paramsText params ++ between ++ ['{']) =
        Text.size u + 1 + Text.size name + Text.size (paramsText params) + Text.size between +
          1 := by
      simp only [Text.size_append]
      rfl
    rw [hsize] at ih
    simpa [Item.chunks, Item.missing, Item.text] using ih
  | .decl property colon value, u, v => by simp [Item.chunks, Item.missing, Item.text]

/-- Printing a body puts in the semicolons that the body lacks. -/
theorem Body.flatten_chunks : (b : Body) → (unended : Bool) → (u v : Text) →
    u ++ (b.chunks unended).flatten ++ v =
      (b.missing (Text.size u) unended).foldr Text.insertSemicolon (u ++ b.text ++ v)
  | .done gap, unended, u, v => by
    rw [Body.chunks, flatten_lastGap]
    rfl
  | .item gap i rest, unended, u, v => by
    -- from the last offset to the first: the rest, then the item, then the end of what is in front
    have hrest := rest.flatten_chunks i.endsInSemicolon (u ++ gap ++ i.text) v
    have hitem := i.flatten_chunks (u ++ gap) ((rest.chunks i.endsInSemicolon).flatten ++ v)
    simp only [Text.size_append] at hrest hitem
    rw [Body.missing, List.foldr_append, List.foldr_append, Body.text,
      ← List.append_assoc u, ← List.append_assoc u, ← hrest]
    rw [List.append_assoc (u ++ gap ++ i.text), ← hitem]
    rw [Body.chunks, List.flatten_append, List.flatten_append, flatten_gap]
    cases unended && gap.head? != some ';' with
    | false => simp
    | true => simp

end

/-! ## The order of the offsets -/

mutual

theorem Item.mem_missing : {i : Item} → {start o : Nat} → o ∈ i.missing start →
    start < o ∧ o < start + Text.size i.text
  | .rule selector between body, start, o, h => by
    have ho := body.mem_missing h
    have hsize : Text.size (Item.rule selector between body).text =
        Text.size selector + Text.size between + 1 + Text.size body.text + 1 := by
      simp [Item.text, show '{'.utf8Size = 1 from rfl, show '}'.utf8Size = 1 from rfl]
      omega
    omega
  | .atBlock name params between body, start, o, h => by
    have ho := body.mem_missing h
    have hsize : Text.size (Item.atBlock name params between body).text =
        1 + Text.size name + Text.size (paramsText params) + Text.size between + 1 +
          Text.size body.text + 1 := by
      simp [Item.text, show '@'.utf8Size = 1 from rfl, show '{'.utf8Size = 1 from rfl,
        show '}'.utf8Size = 1 from rfl]
      omega
    omega

theorem Body.mem_missing : {b : Body} → {offset o : Nat} → {unended : Bool} →
    o ∈ b.missing offset unended → offset ≤ o ∧ o ≤ offset + Text.size b.text
  | .item gap i rest, offset, o, unended, h => by
    have hsize : Text.size (Body.item gap i rest).text =
        Text.size gap + Text.size i.text + Text.size rest.text := by
      simp [Body.text]
      omega
    rw [Body.missing, List.mem_append, List.mem_append] at h
    rcases h with (h | h) | h
    · split at h
      · obtain rfl : o = offset := by simpa using h
        omega
      · simp at h
    · have := i.mem_missing h
      omega
    · have := rest.mem_missing h
      omega

end

mutual

theorem Item.WellFormed.pairwise_missing : {i : Item} → i.WellFormed → (start : Nat) →
    (i.missing start).Pairwise (· < ·)
  | .comment _, _, _ => .nil
  | .rule _ _ _, ⟨_, _, hb⟩, _ => hb.pairwise_missing _ _
  | .statement _ _ _, _, _ => .nil
  | .atBlock _ _ _ _, ⟨_, hb⟩, _ => hb.pairwise_missing _ _
  | .decl _ _ _, _, _ => .nil

/-- The offsets at which a semicolon is missing are listed from left to right, each once. -/
theorem Body.WellFormed.pairwise_missing : {b : Body} → b.WellFormed → (offset : Nat) →
    (unended : Bool) → (b.missing offset unended).Pairwise (· < ·)
  | .done _, _, _, _ => .nil
  | .item gap i rest, ⟨hi, hr⟩, offset, unended => by
    have hpos := Text.size_pos hi.text_start.1
    rw [Body.missing, List.append_assoc, List.pairwise_append, List.pairwise_append]
    refine ⟨?_, ⟨hi.pairwise_missing _, hr.pairwise_missing _ _, ?_⟩, ?_⟩
    · split
      · exact List.pairwise_singleton _ _
      · exact .nil
    · intro o₁ h₁ o₂ h₂
      have := Item.mem_missing h₁
      have := Body.mem_missing h₂
      omega
    · intro o₁ h₁ o₂ h₂
      obtain rfl : o₁ = offset := by
        split at h₁
        · simpa using h₁
        · simp at h₁
      rcases List.mem_append.1 h₂ with h₂ | h₂
      · have := Item.mem_missing h₂
        omega
      · have := Body.mem_missing h₂
        omega

end

/-! ## Trees that were read -/

/-- Printing a tree that was read puts in the semicolons that its text lacks. -/
theorem text_toRoot {b : Body} (h : b.WellFormed) :
    b.toRoot.text = (b.missing 0 false).foldr Text.insertSemicolon b.text := by
  rw [Root.text, h.chunks_toRoot]
  simpa using b.flatten_chunks false [] []

/-- The tree of a body lacks the semicolons that the body lacks. -/
theorem missing_toRoot {b : Body} (h : b.WellFormed) :
    b.toRoot.missing b.text = b.missing 0 false := by
  have hstands : Text.StandsAt b.text 0 (b.text ++ []) := by
    rw [List.append_nil]
    exact Text.standsAt_zero _
  exact h.missing_contents hstands false

/-- A text that was read is printed with the semicolons that it lacks. -/
theorem text_eq_foldr_missing {css : Text} {root : Root} (h : parse css = .ok root) :
    root.text = (root.missing css).foldr Text.insertSemicolon css := by
  obtain ⟨b, hb, rfl⟩ := reads_of_parse h
  have hcss : b.text = css := by simpa using hb.append
  rw [text_toRoot hb.wellFormed, ← missing_toRoot hb.wellFormed, hcss]

theorem pairwise_missing {css : Text} {root : Root} (h : parse css = .ok root) :
    (root.missing css).Pairwise (· < ·) := by
  obtain ⟨b, hb, rfl⟩ := reads_of_parse h
  have hcss : b.text = css := by simpa using hb.append
  rw [← hcss, missing_toRoot hb.wellFormed]
  exact hb.wellFormed.pairwise_missing 0 false

theorem text_eq_iff_missing_eq_nil {css : Text} {root : Root} (h : parse css = .ok root) :
    root.text = css ↔ root.missing css = [] := by
  rw [text_eq_foldr_missing h]
  exact Text.foldr_insertSemicolon_eq_iff _ _

/-- **Printing what was read.** Reading a text and printing the tree puts one semicolon at the end
of each declaration or at-rule without a block that has a sibling behind it and no semicolon at its
end, and changes nothing else. The offsets are those of the text that was read, from left to right,
so that putting in the last of them first moves none of the others. -/
theorem text_of_parse {css : Text} {root : Root} (h : parse css = .ok root) :
    root.text = (root.missing css).foldr Text.insertSemicolon css ∧
      (root.missing css).Pairwise (· < ·) ∧ (root.text = css ↔ root.missing css = []) :=
  ⟨text_eq_foldr_missing h, pairwise_missing h, text_eq_iff_missing_eq_nil h⟩

/-- In a block, a property that starts with a quote ends the declaration in front of it; the rule
behind which another declaration stands takes no semicolon. -/
theorem text_of_parse_block : ∃ root, parse "p\x7ba:\":b\x7dc:d".toList = .ok root ∧
    root.missing "p\x7ba:\":b\x7dc:d".toList = [4] ∧
      root.text = "p\x7ba:;\":b\x7dc:d".toList := by
  have key : (parse "p\x7ba:\":b\x7dc:d".toList).map
      (Root.missing · "p\x7ba:\":b\x7dc:d".toList) = .ok [4] := by decide +kernel
  obtain ⟨root, h, hmissing⟩ := exists_of_map_eq_ok key
  refine ⟨root, h, hmissing, ?_⟩
  rw [(text_of_parse h).1, hmissing]
  decide +kernel

/-! ## When a text is printed as it was read -/

/-- A node has its semicolon: if it is one that is ended by a semicolon, the text has one at the end
of the node. -/
def Node.Terminated (css : Text) (n : Node) : Prop :=
  n.endsInSemicolon = true → ∀ span ∈ n.source, semicolonAt css span.stop = true

theorem Node.missingAfter_eq_nil_iff (css : Text) (n : Node) :
    n.missingAfter css = [] ↔ n.Terminated css := by
  unfold Node.missingAfter Node.Terminated
  cases n.source <;> simp

instance (css : Text) (n : Node) : Decidable (n.Terminated css) :=
  decidable_of_iff _ (n.missingAfter_eq_nil_iff css)

/-- The lists of siblings of a stylesheet: the outermost nodes, and the children of each node. -/
def Root.siblings (root : Root) : List (List Node) :=
  root.nodes :: root.walk.filterMap Node.children?

mutual

theorem Node.missing_eq_nil_iff (css : Text) : (n : Node) →
    (n.missing css = [] ↔
      ∀ ns ∈ n.walk.filterMap Node.children?, ns.IsChain fun m _ ↦ m.Terminated css)
  | .rule a ns l s => by
    simpa [Node.missing, Node.walk, Node.children?] using Node.missingAll_eq_nil_iff css ns
  | .atRule a p (some ns) l s => by
    simpa [Node.missing, Node.walk, Node.children?] using Node.missingAll_eq_nil_iff css ns
  | .atRule a p none l s => by simp [Node.missing, Node.walk, Node.children?]
  | .decl p v i l s => by simp [Node.missing, Node.walk, Node.children?]
  | .comment t l s => by simp [Node.missing, Node.walk, Node.children?]

/-- No semicolon is missing among and inside some nodes if each node with a sibling behind it has
its semicolon. -/
theorem Node.missingAll_eq_nil_iff (css : Text) : (ns : List Node) →
    (Node.missingAll css ns = [] ↔
      (ns.IsChain fun m _ ↦ m.Terminated css) ∧
        ∀ ms ∈ (Node.walkAll ns).filterMap Node.children?, ms.IsChain fun m _ ↦ m.Terminated css)
  | [] => by simp [Node.missingAll, Node.walkAll]
  | n :: ns => by
    have hn := Node.missing_eq_nil_iff css n
    have hns := Node.missingAll_eq_nil_iff css ns
    have hchain : (n :: ns).IsChain (fun m _ ↦ m.Terminated css) ↔
        (if ns.isEmpty then [] else n.missingAfter css) = [] ∧
          ns.IsChain fun m _ ↦ m.Terminated css := by
      cases ns with
      | nil => simp
      | cons m ns => simp [Node.missingAfter_eq_nil_iff]
    rw [Node.missingAll, List.append_eq_nil_iff, List.append_eq_nil_iff, hn, hns, hchain]
    simp only [Node.walkAll, List.filterMap_append, List.mem_append, or_imp, forall_and]
    tauto

end

/-- A text is printed as it was read exactly if each declaration and each at-rule without a block
that has a sibling behind it is followed by a semicolon. -/
theorem text_eq_iff_terminated {css : Text} {root : Root} (h : parse css = .ok root) :
    root.text = css ↔
      ∀ ns ∈ root.siblings, ns.IsChain fun n _ ↦ n.Terminated css := by
  rw [text_eq_iff_missing_eq_nil h, Root.missing, Node.missingAll_eq_nil_iff]
  simp [Root.siblings, Root.walk]

/-- Where a semicolon stands behind the first declaration, the text comes back. -/
theorem text_eq_of_semicolon : ∃ root, parse "a:;\":b".toList = .ok root ∧
    (∀ ns ∈ root.siblings, ns.IsChain fun n _ ↦ n.Terminated "a:;\":b".toList) ∧
      root.text = "a:;\":b".toList := by
  have key : (parse "a:;\":b".toList).map
      (fun root ↦ decide (∀ ns ∈ root.siblings,
        ns.IsChain fun n _ ↦ n.Terminated "a:;\":b".toList)) = .ok true := by
    decide +kernel
  obtain ⟨root, h, hterm⟩ := exists_of_map_eq_ok key
  have hterm := of_decide_eq_true hterm
  exact ⟨root, h, hterm, (text_eq_iff_terminated h).2 hterm⟩

/-- Not every text is printed as it was read: without the semicolon in front of the quote, the two
declarations are printed with one. -/
theorem text_ne_of_unclosed_quote : ∃ root, parse "a:\":b".toList = .ok root ∧
    root.text = "a:;\":b".toList ∧ root.text ≠ "a:\":b".toList := by
  have key : (parse "a:\":b".toList).map Root.text = .ok "a:;\":b".toList := by decide +kernel
  obtain ⟨root, h, htext⟩ := exists_of_map_eq_ok key
  refine ⟨root, h, htext, ?_⟩
  rw [htext]
  decide

end Css

end EmbeddedCss
