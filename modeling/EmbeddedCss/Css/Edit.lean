import EmbeddedCss.Css.Node

/-! # Editing a stylesheet

Nodes are reached by paths of child numbers from the root. An edit either gives the new stylesheet
or says why it cannot be made. -/

namespace EmbeddedCss.Css

/-- The numbers of the children on the way from the root to a node. The empty path leads to the
root. -/
abbrev Path := List Nat

/-- Why an edit cannot be made. -/
inductive EditError where
  /-- The path leads to no node, or to one that cannot hold nodes. -/
  | noSuchPath
  /-- The node has no such field. -/
  | noSuchField
deriving DecidableEq, Repr

/-! ## Changes of fields -/

/-- A new value for a piece of layout. -/
inductive LayoutChange where
  | before (text : Option Text)
  | after (text : Option Text)
  | between (text : Option Text)
  | afterName (text : Option Text)
  | left (text : Option Text)
  | right (text : Option Text)
  | important (text : Option Text)
  | semicolon (present : Bool)
  | value (verbatim : Option Verbatim)

/-- A layout with a change made. -/
def LayoutChange.apply (l : Layout) : LayoutChange → Layout
  | .before t => { l with before := t }
  | .after t => { l with after := t }
  | .between t => { l with between := t }
  | .afterName t => { l with afterName := t }
  | .left t => { l with left := t }
  | .right t => { l with right := t }
  | .important t => { l with important := t }
  | .semicolon b => { l with semicolon := b }
  | .value t => { l with value := t }

/-- A new value for a field of a node. -/
inductive Change where
  | selector (text : Text)
  | name (text : Text)
  | params (text : Text)
  | prop (text : Text)
  | value (text : Text)
  | important (flag : Bool)
  | text (text : Text)
  | layout (change : LayoutChange)

/-- A node with a change made, if it has the field. -/
def Change.apply : Change → Node → Option Node
  | .selector a, .rule _ ns l s => some (.rule a ns l s)
  | .name a, .atRule _ p ns l s => some (.atRule a p ns l s)
  | .params p, .atRule a _ ns l s => some (.atRule a p ns l s)
  | .prop p, .decl _ v i l s => some (.decl p v i l s)
  | .value v, .decl p _ i l s => some (.decl p v i l s)
  | .important i, .decl p v _ l s => some (.decl p v i l s)
  | .text t, .comment _ l s => some (.comment t l s)
  | .layout c, n => some (n.mapLayout c.apply)
  | _, _ => none

/-- A node with its children replaced. `none` takes the block off an at-rule; a rule cannot be
without. -/
def Node.setNodes (nodes : Option (List Node)) : Node → Option Node
  | .rule a _ l s => nodes.map fun ns ↦ .rule a ns l s
  | .atRule a p _ l s => some (.atRule a p nodes l s)
  | .decl .. | .comment .. => none

/-! ## Paths -/

namespace Node

/-- The node that a path leads to. -/
def get? (ns : List Node) : Path → Option Node
  | [] => none
  | i :: path =>
    match ns[i]? with
    | none => none
    | some n => if path.isEmpty then some n else n.children?.bind fun ms ↦ get? ms path

/-- A path leads to a node, or on to what it leads to in the children of a node. -/
theorem get?_cons_eq_some {ns : List Node} {i : Nat} {path : Path} {n : Node} :
    get? ns (i :: path) = some n ↔ ∃ m, ns[i]? = some m ∧
      ((path = [] ∧ m = n) ∨ ∃ ms, m.children? = some ms ∧ get? ms path = some n) := by
  rw [get?]
  cases ns[i]? with
  | none => simp
  | some m =>
    cases path with
    | nil => simp [get?]
    | cons j path => simp [Option.bind_eq_some_iff]

/-- Change the list of nodes in the container that a path leads to. -/
def modifyIn (f : List Node → Option (List Node)) (ns : List Node) : Path → Option (List Node)
  | [] => f ns
  | i :: path => do
    let n ← ns[i]?
    let ms ← modifyIn f (← n.children?) path
    return ns.set i (n.withChildren ms)

end Node

namespace Root

/-- The node that a path leads to. -/
def get? (root : Root) (path : Path) : Option Node := Node.get? root.nodes path

/-- Change the list of nodes in the container that a path leads to. -/
def modifyIn (root : Root) (path : Path) (f : List Node → Option (List Node)) :
    Except EditError Root :=
  match Node.modifyIn f root.nodes path with
  | some nodes => .ok { root with nodes }
  | none => .error .noSuchPath

/-- Insert a node as child number `index` of the container that a path leads to. -/
def insert (root : Root) (path : Path) (index : Nat) (n : Node) : Except EditError Root :=
  root.modifyIn path fun ns ↦ if index ≤ ns.length then some (ns.insertIdx index n) else none

/-- The parent of a path and the number of the child. -/
def splitPath (path : Path) : Option (Path × Nat) := path.getLast?.map fun i ↦ (path.dropLast, i)

/-- Take out the node that a path leads to. -/
def remove (root : Root) (path : Path) : Except EditError (Node × Root) :=
  match root.get? path, splitPath path with
  | some n, some (parent, i) => do
    return (n, ← root.modifyIn parent fun ns ↦ some (ns.eraseIdx i))
  | _, _ => .error .noSuchPath

/-- Replace the node that a path leads to by what `f` makes of it. -/
def update (root : Root) (path : Path) (f : Node → Option Node) : Except EditError Root :=
  match root.get? path, splitPath path with
  | some n, some (parent, i) =>
    match f n with
    | some m => root.modifyIn parent fun ns ↦ some (ns.set i m)
    | none => .error .noSuchField
  | _, _ => .error .noSuchPath

/-- Change a field of the node that a path leads to. Of the root, only the layout can be changed. -/
def set (root : Root) (path : Path) (change : Change) : Except EditError Root :=
  match path, change with
  | [], .layout c => .ok { root with layout := c.apply root.layout }
  | [], _ => .error .noSuchField
  | i :: path, change => root.update (i :: path) change.apply

/-- Move a node into the container that `target` leads to once the node is taken out. If there is no
such place, the node stays out; that is the second stylesheet of the result. -/
def move (root : Root) (path target : Path) (index : Nat) : Except EditError Unit × Root :=
  match root.remove path with
  | .error e => (.error e, root)
  | .ok (n, root) =>
    match root.insert target index n with
    | .error e => (.error e, root)
    | .ok root => (.ok (), root)

/-- Insert a copy of a node. -/
def copy (root : Root) (path target : Path) (index : Nat) : Except EditError Root :=
  match root.get? path with
  | none => .error .noSuchPath
  | some n => root.insert target index n

/-- Replace every node that passes a test by what `f` makes of it, and count these nodes. -/
def updateAll (root : Root) (test : Node → Bool) (f : Node → Option Node) :
    Except EditError (Nat × Root) :=
  let affected := root.walk.filter test
  if affected.all fun n ↦ (f n).isSome then
    let g := fun n ↦ if test n then (f n).getD n else n
    .ok (affected.length, { root with nodes := Node.mapTreeAll g root.nodes })
  else .error .noSuchField

end Root

end EmbeddedCss.Css
