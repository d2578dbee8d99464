import EmbeddedCss.Text.Basic

/-! # Concrete syntax of a stylesheet

What the grammar reads, piece by piece and with nothing left out: the pieces of an item or a body
make up the text it was read from. -/

namespace EmbeddedCss.Css

mutual

/-- One item of a body. -/
inductive Item where
  /-- A comment, as written. -/
  | comment (lexeme : Text)
  /-- A selector, the white space after it, and a block. -/
  | rule (selector between : Text) (body : Body)
  /-- An at-rule without a block: its name, its parameters with the white space in front of them,
  and the white space in front of the semicolon, where there is one. -/
  | statement (name : Text) (params : Option (Text × Text)) (between : Option Text)
  /-- An at-rule with a block: its name, its parameters with the white space in front of them, the
  white space after these, and the block. -/
  | atBlock (name : Text) (params : Option (Text × Text)) (between : Text) (body : Body)
  /-- A property, the colon with the white space around it, and the value with the white space in
  front of a semicolon. -/
  | decl (property colon value : Text)

/-- The items of a stylesheet or a block, with the gaps in front of them and after the last. -/
inductive Body where
  /-- The gap after the last item. -/
  | done (gap : Text)
  /-- A gap, an item, and what comes after it. -/
  | item (gap : Text) (item : Item) (rest : Body)

end

/-- The text of the parameters of an at-rule. -/
def paramsText (params : Option (Text × Text)) : Text := params.elim [] fun p ↦ p.1 ++ p.2

mutual

/-- The text that an item was read from. -/
def Item.text : Item → Text
  | .comment lexeme => lexeme
  | .rule selector between body => selector ++ between ++ '{' :: body.text ++ ['}']
  | .statement name params between => '@' :: name ++ paramsText params ++ between.getD []
  | .atBlock name params between body =>
    '@' :: name ++ paramsText params ++ between ++ '{' :: body.text ++ ['}']
  | .decl property colon value => property ++ colon ++ value

/-- The text that a body was read from. -/
def Body.text : Body → Text
  | .done gap => gap
  | .item gap item rest => gap ++ item.text ++ rest.text

end

/-- Whether an item ends at the semicolon after it: a declaration or an at-rule without a block. -/
def Item.endsInSemicolon : Item → Bool
  | .statement .. | .decl .. => true
  | .comment .. | .rule .. | .atBlock .. => false

end EmbeddedCss.Css
