import EmbeddedCss.Css.Edit
import EmbeddedCss.Proofs.Css.Printing
import EmbeddedCss.Sheet
import Mathlib.Data.List.Basic

/-! # Edits change only their own text

How a node is printed depends on where it stands: the first node of a stylesheet has another default
in front of it, and a node that is the last of its container may go without the semicolon that ends
it. Nothing else is known about the place, and the place does not change when another node is put
there.

The main statement is a frame property. What is printed in front of a node and behind it stays the
same, chunk by chunk, whatever the node is replaced by, and so it does once the interpolations are
put back. -/

namespace EmbeddedCss.Css

/-! ## Nodes at their places -/

/-- The chunks of a node at its place: what stands in front of it, which is `before` by default, its
own text with that of its children, and the semicolon that ends it, if there is to be one. -/
def Node.placedChunks (before : Text) (ended : Bool) (n : Node) : List Text :=
  chunk (n.layout.before.getD before) ++ n.chunks false ++ terminator (n.endsInSemicolon && ended)

/-- The semicolon that ends a node is its last chunk. -/
theorem Node.chunks_eq_append_terminator (ended : Bool) (n : Node) :
    n.chunks ended = n.chunks false ++ terminator (n.endsInSemicolon && ended) := by
  cases n with
  | rule => simp [Node.chunks, Node.endsInSemicolon]
  | atRule name params nodes => cases nodes <;> simp [Node.chunks, Node.endsInSemicolon, terminator]
  | decl => simp [Node.chunks, Node.endsInSemicolon, terminator]
  | comment => simp [Node.chunks, Node.endsInSemicolon]

theorem Node.bodyChunks_cons (semicolon : Bool) (before : Text) (n : Node) (ns : List Node) :
    Node.bodyChunks semicolon before (n :: ns) =
      n.placedChunks before (!ns.isEmpty || semicolon) ++
        Node.bodyChunks semicolon defaultBefore ns := by
  rw [Node.bodyChunks, Node.chunks_eq_append_terminator, ← Bool.and_assoc, Bool.and_self,
    Node.placedChunks, List.append_assoc, List.append_assoc, List.append_assoc, List.append_assoc]

/-- Of the siblings of a node, those in front of it are printed as if a semicolon ended the last of
them, and those behind it as if nothing stood in front of them. -/
theorem Node.bodyChunks_append_cons (semicolon : Bool) (before : Text) (ns₁ : List Node) (n : Node)
    (ns₂ : List Node) :
    Node.bodyChunks semicolon before (ns₁ ++ n :: ns₂) =
      Node.bodyChunks true before ns₁ ++
        n.placedChunks (if ns₁.isEmpty then before else defaultBefore)
          (!ns₂.isEmpty || semicolon) ++
        Node.bodyChunks semicolon defaultBefore ns₂ := by
  induction ns₁ generalizing before with
  | nil => exact Node.bodyChunks_cons semicolon before n ns₂
  | cons m ns₁ ih =>
    rw [List.cons_append, Node.bodyChunks_cons, Node.bodyChunks_cons, ih]
    have hends : (!(ns₁ ++ n :: ns₂).isEmpty || semicolon) = true := by simp
    rw [hends]
    simp

/-- The default for the end of a block depends only on how many children it has. -/
theorem defaultAfter_of_length {ms ns : List Node} (h : ms.length = ns.length) :
    defaultAfter ms = defaultAfter ns := by
  simp only [defaultAfter, List.isEmpty_iff_length_eq_zero, h]

/-- A node with a block prints its children between what does not depend on them, except for how
many there are. -/
theorem Node.exists_chunks_withChildren {n : Node} {ns : List Node} (h : n.children? = some ns) :
    ∃ a b, ∀ ms : List Node, ms.length = ns.length →
      (n.withChildren ms).chunks false =
        a ++ Node.bodyChunks n.layout.semicolon defaultBefore ms ++ b := by
  cases n with
  | rule selector nodes layout source =>
    obtain rfl : nodes = ns := Option.some.inj h
    refine ⟨chunk selector ++ chunk (layout.between.getD defaultBetween) ++ [['{']],
      chunk (layout.after.getD (defaultAfter nodes)) ++ [['}']], fun ms hms ↦ ?_⟩
    simp [Node.withChildren, Node.chunks, Node.layout, defaultAfter_of_length hms]
  | atRule name params nodes layout source =>
    obtain rfl : nodes = some ns := h
    refine ⟨[['@']] ++ chunk name ++
        (if params = [] then [] else chunk (layout.afterName.getD [' ']) ++ chunk params) ++
        chunk (layout.between.getD defaultBetween) ++ [['{']],
      chunk (layout.after.getD (defaultAfter ns)) ++ [['}']], fun ms hms ↦ ?_⟩
    simp [Node.withChildren, Node.chunks, Node.layout, defaultAfter_of_length hms]
  | decl => cases h
  | comment => cases h

/-- Other children change nothing else about a node. -/
theorem Node.withChildren_of_children {n : Node} {ns : List Node} (h : n.children? = some ns)
    (ms : List Node) : n.withChildren ns = n ∧ (n.withChildren ms).layout = n.layout ∧
      (n.withChildren ms).endsInSemicolon = n.endsInSemicolon := by
  cases n with
  | rule =>
    obtain rfl := Option.some.inj h
    exact ⟨rfl, rfl, rfl⟩
  | atRule =>
    obtain rfl : _ = some ns := h
    exact ⟨rfl, rfl, rfl⟩
  | decl => cases h
  | comment => cases h

/-! ## Containers -/

/-- The nodes of a stylesheet or of a block, and whether a semicolon ends the last of them. -/
structure Container where
  nodes : List Node
  semicolon : Bool

namespace Container

/-- The container that a path leads to from a container. -/
def at? (c : Container) : Path → Option Container
  | [] => some c
  | i :: path => do
    let n ← c.nodes[i]?
    at? ⟨← n.children?, n.layout.semicolon⟩ path

/-- Whether a semicolon ends child number `i`, if it takes one. -/
def ends (c : Container) (i : Nat) : Bool := i + 1 != c.nodes.length || c.semicolon

theorem set_eq_self {c : Container} {i : Nat} {n : Node} (h : c.nodes[i]? = some n) :
    c.nodes.set i n = c.nodes := by
  obtain ⟨hi, rfl⟩ := List.getElem?_eq_some_iff.1 h
  exact List.set_getElem_self hi

/-- Putting another node in the place of a child keeps what the children in front of it and behind
it print. -/
theorem exists_bodyChunks_set {c : Container} {i : Nat} {n : Node} (h : c.nodes[i]? = some n)
    (before : Text) : ∃ a b, ∀ m : Node,
      Node.bodyChunks c.semicolon before (c.nodes.set i m) =
        a ++ m.placedChunks (if i = 0 then before else defaultBefore) (c.ends i) ++ b := by
  obtain ⟨hi, -⟩ := List.getElem?_eq_some_iff.1 h
  have hfront : (c.nodes.take i).isEmpty = true ↔ i = 0 := by
    rw [List.isEmpty_iff_length_eq_zero, List.length_take]
    omega
  have hback : (!(c.nodes.drop (i + 1)).isEmpty) = (i + 1 != c.nodes.length) := by
    rw [bne, Bool.not_inj_iff, Bool.eq_iff_iff, List.isEmpty_iff_length_eq_zero, List.length_drop,
      beq_iff_eq]
    omega
  refine ⟨Node.bodyChunks true before (c.nodes.take i),
    Node.bodyChunks c.semicolon defaultBefore (c.nodes.drop (i + 1)), fun m ↦ ?_⟩
  rw [List.set_eq_take_append_cons_drop, if_pos hi, Node.bodyChunks_append_cons, hback]
  simp only [hfront, ends]

/-- Putting another node in the place of the one that a path leads to changes only what is printed
for that node. -/
theorem exists_frame {parent : Path} {c : Container} {i : Nat} {n : Node}
    (h : Node.get? c.nodes (parent ++ [i]) = some n) (before : Text) :
    ∃ d a b, c.at? parent = some d ∧ d.nodes[i]? = some n ∧ ∀ m : Node,
      ∃ ns, Node.modifyIn (fun ns ↦ some (ns.set i m)) c.nodes parent = some ns ∧
        ns.length = c.nodes.length ∧ (m = n → ns = c.nodes) ∧
        Node.bodyChunks c.semicolon before ns =
          a ++ m.placedChunks (if parent ++ [i] = [0] then before else defaultBefore) (d.ends i) ++
            b := by
  induction parent generalizing c before with
  | nil =>
    obtain ⟨_, hn, ⟨-, rfl⟩ | ⟨ms, -, hms⟩⟩ := Node.get?_cons_eq_some.1 h
    · obtain ⟨a, b, hset⟩ := exists_bodyChunks_set hn before
      refine ⟨c, a, b, rfl, hn, fun m ↦ ⟨c.nodes.set i m, rfl, ?_, ?_, ?_⟩⟩
      · exact List.length_set
      · rintro rfl
        exact set_eq_self hn
      · simpa using hset m
    · cases hms
  | cons j parent ih =>
    obtain ⟨k, hk, ⟨hnil, -⟩ | ⟨ms, hms, h⟩⟩ := Node.get?_cons_eq_some.1 h
    · simp at hnil
    · obtain ⟨d, a, b, hd, hn, hframe⟩ := ih (c := ⟨ms, k.layout.semicolon⟩) h defaultBefore
      obtain ⟨a₁, b₁, hblock⟩ := Node.exists_chunks_withChildren hms
      obtain ⟨a₂, b₂, hset⟩ := exists_bodyChunks_set hk before
      refine ⟨d, a₂ ++ chunk (k.layout.before.getD (if j = 0 then before else defaultBefore)) ++
        a₁ ++ a, b ++ b₁ ++ terminator (k.endsInSemicolon && c.ends j) ++ b₂, ?_, hn, fun m ↦ ?_⟩
      · rw [at?, hk, Option.bind_eq_bind, Option.bind_some, hms]
        exact hd
      · obtain ⟨ns, hns, hlength, hself, hchunks⟩ := hframe m
        obtain ⟨hsame, hlayout, hends⟩ := Node.withChildren_of_children hms ns
        refine ⟨c.nodes.set j (k.withChildren ns), ?_, List.length_set, ?_, ?_⟩
        · simp [Node.modifyIn, hk, hms, hns]
        · intro hm
          rw [hself hm, hsame, set_eq_self hk]
        · rw [hset, Node.placedChunks, hlayout, hends, hblock ns hlength, hchunks]
          simp

end Container

/-! ## Replacing a node -/

/-- A stylesheet as a container. -/
def Root.container (root : Root) : Container := ⟨root.nodes, root.layout.semicolon⟩

/-- What stands by default in front of the node that a path leads to: a line end, except in front of
the first node of the stylesheet. -/
def defaultBeforeAt (path : Path) : Text := if path = [0] then [] else defaultBefore

/-- Replacing the node that a path leads to puts another node in its place. -/
theorem Root.update_eq {root : Root} {parent : Path} {i : Nat} {n m : Node}
    (h : root.get? (parent ++ [i]) = some n) {f : Node → Option Node} (hf : f n = some m)
    {ns : List Node}
    (hns : Node.modifyIn (fun ns ↦ some (ns.set i m)) root.nodes parent = some ns) :
    root.update (parent ++ [i]) f = .ok { root with nodes := ns } := by
  simp [Root.update, h, Root.splitPath, hf, Root.modifyIn, hns]

/-- A stylesheet is printed as some chunks between `a` and `b`, and so is a template body, whatever
interpolations the table puts back. -/
structure Root.IsFramed (a b own : List Text) (root : Root) : Prop where
  chunks : root.chunks = a ++ own ++ b
  text : ∀ table sites, Sheet.text ⟨root, table, sites⟩ =
    (a.map (Marker.restore table)).flatten ++ (own.map (Marker.restore table)).flatten ++
      (b.map (Marker.restore table)).flatten

/-- Interpolations are put back chunk by chunk. -/
theorem Root.isFramed_of_chunks {a b own : List Text} {root : Root}
    (h : root.chunks = a ++ own ++ b) : root.IsFramed a b own := by
  refine ⟨h, fun table sites ↦ ?_⟩
  rw [Sheet.text, Sheet.chunks, h, List.map_append, List.map_append, List.flatten_append,
    List.flatten_append]

/-- **An edit changes only its own text.** Let a path lead to a node. In front of the node and behind
it there are chunks `a` and `b` that are printed whatever the node is replaced by, and between them
the chunks of the node at its place. A semicolon ends the node if it takes one, and if it is not the
last of its container or the container has a semicolon there. With the interpolations put back,
what is printed in front of the node and behind it stays the same as well. -/
theorem exists_frame_of_update {root : Root} {path : Path} {n : Node}
    (h : root.get? path = some n) :
    ∃ parent i c a b, path = parent ++ [i] ∧ root.container.at? parent = some c ∧
      c.nodes[i]? = some n ∧
      root.IsFramed a b (n.placedChunks (defaultBeforeAt path) (c.ends i)) ∧
      ∀ (f : Node → Option Node) (m : Node), f n = some m →
        ∃ root', root.update path f = .ok root' ∧
          root'.IsFramed a b (m.placedChunks (defaultBeforeAt path) (c.ends i)) := by
  obtain rfl | ⟨parent, i, rfl⟩ := List.eq_nil_or_concat' path
  · cases h
  · obtain ⟨c, a, b, hc, hn, hframe⟩ := Container.exists_frame (c := root.container) h []
    -- what follows the last node of the stylesheet belongs to the frame
    have hroot : ∀ m : Node, ∃ ns,
        Node.modifyIn (fun ns ↦ some (ns.set i m)) root.nodes parent = some ns ∧
        (m = n → ns = root.nodes) ∧
        Root.IsFramed a (b ++ chunk (root.layout.after.getD []))
          (m.placedChunks (defaultBeforeAt (parent ++ [i])) (c.ends i))
          { root with nodes := ns } := by
      intro m
      obtain ⟨ns, hns, -, hself, hchunks⟩ := hframe m
      refine ⟨ns, hns, hself, Root.isFramed_of_chunks ?_⟩
      rw [Root.chunks, ← List.append_assoc, defaultBeforeAt, ← hchunks]
      rfl
    refine ⟨parent, i, c, a, b ++ chunk (root.layout.after.getD []), rfl, hc, hn, ?_,
      fun f m hf ↦ ?_⟩
    · obtain ⟨ns, -, hself, hframed⟩ := hroot n
      rw [hself rfl] at hframed
      exact hframed
    · obtain ⟨ns, hns, -, hframed⟩ := hroot m
      exact ⟨_, Root.update_eq h hf hns, hframed⟩

/-- In a block, a declaration in front of another one gives way to a comment. The semicolon behind it
goes with it. -/
theorem exists_frame_of_update_block : ∃ root root' : Root, ∃ a b,
    root = { nodes := [.rule ['p'] [.decl ['a'] ['b'] false {} none,
      .decl "/*L:0*/".toList ['c'] false {} none] {} none] } ∧
    root.update [0, 0] (fun _ ↦ some (.comment ['x'] {} none)) = .ok root' ∧
    root.IsFramed a b ["\n".toList, ['a'], ": ".toList, ['b'], [';']] ∧
    root'.IsFramed a b ["\n".toList, "/* x */".toList] := by
  have hget : Root.get? { nodes := [.rule ['p'] [.decl ['a'] ['b'] false {} none,
      .decl "/*L:0*/".toList ['c'] false {} none] {} none] } [0, 0] =
        some (.decl ['a'] ['b'] false {} none) := by decide
  obtain ⟨parent, i, c, a, b, hpath, hc, -, hframed, hupdate⟩ := exists_frame_of_update hget
  change [0] ++ [0] = parent ++ [i] at hpath
  obtain ⟨rfl, rfl⟩ : [0] = parent ∧ 0 = i := by simpa using List.append_inj' hpath rfl
  obtain rfl := Option.some.inj hc
  obtain ⟨root', hroot', hframed'⟩ := hupdate (fun _ ↦ some (.comment ['x'] {} none)) _ rfl
  exact ⟨_, root', a, b, rfl, hroot', hframed, hframed'⟩

end EmbeddedCss.Css
