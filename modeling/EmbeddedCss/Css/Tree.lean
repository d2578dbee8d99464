import EmbeddedCss.Css.Node
import EmbeddedCss.Css.Syntax
import EmbeddedCss.Text.Blank

/-! # From syntax to the tree

Each item becomes a node. Its pieces go into the content and the layout of the node, except for the
semicolon that ends a declaration or an at-rule without a block: the printer puts that back. -/

namespace EmbeddedCss.Css

/-- The nodes of a body, and how it ends. -/
structure Contents where
  /-- The nodes. -/
  nodes : List Node
  /-- The gap after the last node, without the semicolon that ends it. -/
  after : Text
  /-- Whether a semicolon ends the last node. -/
  semicolon : Bool

/-- A gap without the semicolon that ends the item in front of it, and whether it had one. Only an
item that is `unended` takes a semicolon. -/
def cutTerminator (unended : Bool) (gap : Text) : Text × Bool :=
  match unended, gap with
  | true, ';' :: rest => (rest, true)
  | _, gap => (gap, false)

/-- The mark that gives a declaration priority. -/
def importantMark : Text := "!important".toList

/-- A value that ends in the mark of importance, whatever its case, cut in front of the blanks
before the mark. -/
def cutImportant (written : Text) : Option (Text × Text) :=
  let text := Text.trimEnd written
  let bang := text.length - importantMark.length
  if (text.drop bang).map Char.toLower = importantMark then
    let value := Text.trimEnd (text.take bang)
    some (value, written.drop value.length)
  else none

/-- A declaration of `written` as value. A value that is not clean keeps its written form. -/
def Node.ofValue (prop : Text) (layout : Layout) (source : Span) (written : Text) : Node :=
  match cutImportant written with
  | some (value, mark) =>
    .decl prop value true { layout with important := some mark } (some source)
  | none =>
    let value := Text.trimEnd written
    let verbatim := if value = written then none else some ⟨value, written⟩
    .decl prop value false { layout with value := verbatim } (some source)

/-- A value makes a declaration, whether it is important or not. -/
theorem exists_ofValue_eq (prop : Text) (layout : Layout) (source : Span) (written : Text) :
    ∃ value important layout', Node.ofValue prop layout source written =
      .decl prop value important layout' (some source) := by
  unfold Node.ofValue
  split
  · exact ⟨_, _, _, rfl⟩
  · exact ⟨_, _, _, rfl⟩

/-- A comment with its blanks in the layout. -/
def Node.ofComment (lexeme : Text) (layout : Layout) (source : Span) : Node :=
  let p := Text.padded (lexeme.drop 2).dropLast.dropLast
  .comment p.core { layout with left := some p.leading, right := some p.trailing } (some source)

mutual

/-- The node of an item that stands at `start`, with the gap in front of it. -/
def Item.toNode (start : Nat) (before : Text) : Item → Node
  | .comment lexeme =>
    .ofComment lexeme { before := some before } ⟨start, start + Text.size lexeme⟩
  | .rule selector between body =>
    let c := body.contents (start + Text.size selector + Text.size between + 1) false
    .rule selector c.nodes
      { before := some before, between := some between, after := some c.after,
        semicolon := c.semicolon }
      (some ⟨start, start + Text.size (Item.rule selector between body).text⟩)
  | .statement name params between =>
    .atRule name (params.elim [] Prod.snd) none
      { before := some before, between, afterName := params.map Prod.fst }
      (some ⟨start, start + Text.size (Item.statement name params between).text⟩)
  | .atBlock name params between body =>
    let c := body.contents
      (start + 1 + Text.size name + Text.size (paramsText params) + Text.size between + 1) false
    .atRule name (params.elim [] Prod.snd) (some c.nodes)
      { before := some before, between := some between, afterName := params.map Prod.fst,
        after := some c.after, semicolon := c.semicolon }
      (some ⟨start, start + Text.size (Item.atBlock name params between body).text⟩)
  | .decl property colon value =>
    .ofValue property { before := some before, between := some colon }
      ⟨start, start + Text.size (Item.decl property colon value).text⟩ value

/-- The contents of a body that stands at `offset`. The item in front of it may be unended. -/
def Body.contents (offset : Nat) (unended : Bool) : Body → Contents
  | .done gap =>
    let (after, semicolon) := cutTerminator unended gap
    ⟨[], after, semicolon⟩
  | .item gap item rest =>
    let start := offset + Text.size gap
    let c := rest.contents (start + Text.size item.text) item.endsInSemicolon
    { c with nodes := item.toNode start (cutTerminator unended gap).1 :: c.nodes }

end

/-- The stylesheet of a whole text. -/
def Body.toRoot (body : Body) : Root :=
  let c := body.contents 0 false
  { nodes := c.nodes
    layout := { after := some c.after, semicolon := c.semicolon }
    source := some ⟨0, Text.size body.text⟩ }

end EmbeddedCss.Css
