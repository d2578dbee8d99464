import EmbeddedCss.Css.Layout
import EmbeddedCss.Span

/-! # The tree of a stylesheet

A stylesheet is a list of nodes: rules, at-rules, declarations and comments. Rules and those
at-rules that have a block hold nodes in turn. Every node keeps its layout and, if it was read from
a text, the span it was read from. -/

namespace EmbeddedCss.Css

/-- A node of a stylesheet. -/
inductive Node where
  /-- A rule: `selector { … }`. -/
  | rule (selector : Text) (nodes : List Node) (layout : Layout) (source : Option Span)
  /-- An at-rule: `@name params;`, or with a block `@name params { … }`. -/
  | atRule (name params : Text) (nodes : Option (List Node)) (layout : Layout)
      (source : Option Span)
  /-- A declaration: `prop: value`. -/
  | decl (prop value : Text) (important : Bool) (layout : Layout) (source : Option Span)
  /-- A comment: `/* text */`. -/
  | comment (text : Text) (layout : Layout) (source : Option Span)
deriving Repr

/-- The kinds of nodes. -/
inductive Kind where
  | rule | atRule | decl | comment
deriving DecidableEq, Repr

namespace Node

/-- The kind of a node. -/
def kind : Node → Kind
  | .rule .. => .rule
  | .atRule .. => .atRule
  | .decl .. => .decl
  | .comment .. => .comment

/-- How a node was written. -/
def layout : Node → Layout
  | .rule _ _ l _ | .atRule _ _ _ l _ | .decl _ _ _ l _ | .comment _ l _ => l

/-- The span a node was read from. -/
def source : Node → Option Span
  | .rule _ _ _ s | .atRule _ _ _ _ s | .decl _ _ _ _ s | .comment _ _ s => s

/-- The children of a node that can have any. -/
def children? : Node → Option (List Node)
  | .rule _ ns _ _ => some ns
  | .atRule _ _ ns _ _ => ns
  | .decl .. | .comment .. => none

/-- Whether a node is ended by a semicolon: a declaration, or an at-rule without a block. -/
def endsInSemicolon : Node → Bool
  | .decl .. => true
  | .atRule _ _ ns _ _ => ns.isNone
  | .rule .. | .comment .. => false

/-- A node with its layout changed. -/
def mapLayout (f : Layout → Layout) : Node → Node
  | .rule a ns l s => .rule a ns (f l) s
  | .atRule a p ns l s => .atRule a p ns (f l) s
  | .decl p v i l s => .decl p v i (f l) s
  | .comment t l s => .comment t (f l) s

/-- A node with other children. A node without children stays as it is. -/
def withChildren (ns : List Node) : Node → Node
  | .rule a _ l s => .rule a ns l s
  | .atRule a p (some _) l s => .atRule a p (some ns) l s
  | n => n

@[simp] theorem layout_mapLayout (f : Layout → Layout) (n : Node) :
    (n.mapLayout f).layout = f n.layout := by cases n <;> rfl

@[simp] theorem children?_mapLayout (f : Layout → Layout) (n : Node) :
    (n.mapLayout f).children? = n.children? := by cases n <;> rfl

/-! ## Walking the tree -/

mutual

/-- A node and the nodes below it, each in front of its children. -/
def walk : Node → List Node
  | .rule a ns l s => .rule a ns l s :: walkAll ns
  | .atRule a p none l s => [.atRule a p none l s]
  | .atRule a p (some ns) l s => .atRule a p (some ns) l s :: walkAll ns
  | .decl p v i l s => [.decl p v i l s]
  | .comment t l s => [.comment t l s]

/-- Some nodes and the nodes below them, in the order in which they stand in the text. -/
def walkAll : List Node → List Node
  | [] => []
  | n :: ns => walk n ++ walkAll ns

end

mutual

/-- Change a node and every node below it. -/
def mapTree (f : Node → Node) : Node → Node
  | .rule a ns l s => f (.rule a (mapTreeAll f ns) l s)
  | .atRule a p none l s => f (.atRule a p none l s)
  | .atRule a p (some ns) l s => f (.atRule a p (some (mapTreeAll f ns)) l s)
  | .decl p v i l s => f (.decl p v i l s)
  | .comment t l s => f (.comment t l s)

/-- Change some nodes and every node below them. -/
def mapTreeAll (f : Node → Node) : List Node → List Node
  | [] => []
  | n :: ns => mapTree f n :: mapTreeAll f ns

end

/-! ## Equality -/

mutual

/-- Whether two nodes are the same, with all that is below them. -/
protected def decEq : (m n : Node) → Decidable (m = n)
  | .rule a ms l s, .rule b ns k t =>
    if h : a = b ∧ l = k ∧ s = t then
      match Node.decEqAll ms ns with
      | .isTrue e => .isTrue (by rw [h.1, h.2.1, h.2.2, e])
      | .isFalse e => .isFalse (by simp [e])
    else .isFalse (by rintro ⟨⟩; exact h ⟨rfl, rfl, rfl⟩)
  | .atRule a p none l s, .atRule b q none k t =>
    if h : a = b ∧ p = q ∧ l = k ∧ s = t then .isTrue (by rw [h.1, h.2.1, h.2.2.1, h.2.2.2])
    else .isFalse (by rintro ⟨⟩; exact h ⟨rfl, rfl, rfl, rfl⟩)
  | .atRule a p (some ms) l s, .atRule b q (some ns) k t =>
    if h : a = b ∧ p = q ∧ l = k ∧ s = t then
      match Node.decEqAll ms ns with
      | .isTrue e => .isTrue (by rw [h.1, h.2.1, h.2.2.1, h.2.2.2, e])
      | .isFalse e => .isFalse (by simp [e])
    else .isFalse (by rintro ⟨⟩; exact h ⟨rfl, rfl, rfl, rfl⟩)
  | .atRule _ _ none _ _, .atRule _ _ (some _) _ _
  | .atRule _ _ (some _) _ _, .atRule _ _ none _ _ => .isFalse (by simp)
  | .decl p v i l s, .decl q w j k t =>
    if h : p = q ∧ v = w ∧ i = j ∧ l = k ∧ s = t then
      .isTrue (by rw [h.1, h.2.1, h.2.2.1, h.2.2.2.1, h.2.2.2.2])
    else .isFalse (by rintro ⟨⟩; exact h ⟨rfl, rfl, rfl, rfl, rfl⟩)
  | .comment x l s, .comment y k t =>
    if h : x = y ∧ l = k ∧ s = t then .isTrue (by rw [h.1, h.2.1, h.2.2])
    else .isFalse (by rintro ⟨⟩; exact h ⟨rfl, rfl, rfl⟩)
  | .rule .., .atRule .. | .rule .., .decl .. | .rule .., .comment ..
  | .atRule .., .rule .. | .atRule .., .decl .. | .atRule .., .comment ..
  | .decl .., .rule .. | .decl .., .atRule .. | .decl .., .comment ..
  | .comment .., .rule .. | .comment .., .atRule .. | .comment .., .decl .. =>
    .isFalse (by simp)

/-- Whether two lists of nodes are the same. -/
protected def decEqAll : (ms ns : List Node) → Decidable (ms = ns)
  | [], [] => .isTrue rfl
  | [], _ :: _ => .isFalse (by simp)
  | _ :: _, [] => .isFalse (by simp)
  | m :: ms, n :: ns =>
    match Node.decEq m n, Node.decEqAll ms ns with
    | .isTrue h, .isTrue e => .isTrue (by rw [h, e])
    | .isFalse h, _ => .isFalse (by simp [h])
    | _, .isFalse e => .isFalse (by simp [e])

end

instance : DecidableEq Node := Node.decEq

end Node

/-- A whole stylesheet. -/
@[ext]
structure Root where
  /-- The outermost nodes. -/
  nodes : List Node := []
  /-- How the text ends: what follows the last node. -/
  layout : Layout := {}
  /-- The span of the text it was read from. -/
  source : Option Span := none
deriving DecidableEq, Repr

/-- All nodes of a stylesheet, in the order in which they stand in the text. -/
def Root.walk (root : Root) : List Node := Node.walkAll root.nodes

end EmbeddedCss.Css
