import EmbeddedCss.Css.Node

/-! # Printing a stylesheet

The text of a stylesheet is written in chunks: a piece of layout, a selector, a name, a value, a
whole comment. No chunk is empty, and none ends inside a comment, a selector or a value, so that
markers in the text can be looked for chunk by chunk.

Layout that a node leaves open gets a default. A declaration, or an at-rule without a block, is
ended by a semicolon unless it is the last child of a container that has none there. -/

namespace EmbeddedCss.Css

/-- A chunk, or none if there is nothing to write. -/
def chunk (t : Text) : List Text := if t = [] then [] else [t]

@[simp] theorem chunk_nil : chunk [] = [] := rfl

@[simp] theorem flatten_chunk (t : Text) : (chunk t).flatten = t := by
  unfold chunk
  split <;> simp_all

/-! ## Defaults -/

/-- A node starts on a line of its own. -/
def defaultBefore : Text := ['\n']

/-- A declaration has a space after its colon. -/
def defaultColon : Text := [':', ' ']

/-- A block has a space in front of it. -/
def defaultBetween : Text := [' ']

/-- The closing brace of a block that is not empty stands on a line of its own. -/
def defaultAfter (nodes : List Node) : Text := if nodes.isEmpty then [] else ['\n']

/-- A comment has a space on either side of its text. -/
def defaultPadding : Text := [' ']

/-- The mark of importance has a space in front of it. -/
def defaultImportant : Text := " !important".toList

/-! ## Chunks -/

mutual

/-- The chunks of a node, with the semicolon that ends it if it is `ended`. -/
def Node.chunks (ended : Bool) : Node → List Text
  | .rule selector nodes layout _ =>
    chunk selector ++ chunk (layout.between.getD defaultBetween) ++
      [['{']] ++ Node.bodyChunks layout.semicolon defaultBefore nodes ++
        chunk (layout.after.getD (defaultAfter nodes)) ++ [['}']]
  | .atRule name params none layout _ =>
    [['@']] ++ chunk name ++
      (if params = [] then [] else chunk (layout.afterName.getD [' ']) ++ chunk params) ++
        chunk (layout.between.getD []) ++ (if ended then [[';']] else [])
  | .atRule name params (some nodes) layout _ =>
    [['@']] ++ chunk name ++
      (if params = [] then [] else chunk (layout.afterName.getD [' ']) ++ chunk params) ++
        chunk (layout.between.getD defaultBetween) ++
      [['{']] ++ Node.bodyChunks layout.semicolon defaultBefore nodes ++
        chunk (layout.after.getD (defaultAfter nodes)) ++ [['}']]
  | .decl prop value important layout _ =>
    chunk prop ++ chunk (layout.between.getD defaultColon) ++
      chunk (Verbatim.printed layout.value value) ++
        (if important then chunk (layout.important.getD defaultImportant) else []) ++
          (if ended then [[';']] else [])
  | .comment text layout _ =>
    [['/', '*'] ++ layout.left.getD defaultPadding ++ text ++ layout.right.getD defaultPadding ++
      ['*', '/']]

/-- The chunks of the children of a container. The container says whether a semicolon ends the last
of them; `before` is the default for what stands in front of the first. -/
def Node.bodyChunks (semicolon : Bool) (before : Text) : List Node → List Text
  | [] => []
  | n :: ns =>
    chunk (n.layout.before.getD before) ++
      n.chunks (n.endsInSemicolon && (!ns.isEmpty || semicolon)) ++
        Node.bodyChunks semicolon defaultBefore ns

end

/-- The chunks of a stylesheet. By default nothing stands in front of its first node. -/
def Root.chunks (root : Root) : List Text :=
  Node.bodyChunks root.layout.semicolon [] root.nodes ++ chunk (root.layout.after.getD [])

/-- The text of a stylesheet. -/
def Root.text (root : Root) : Text := root.chunks.flatten

end EmbeddedCss.Css
