import EmbeddedCss.Css.Lexeme
import EmbeddedCss.Css.Syntax
import EmbeddedCss.Parser.Basic

/-! # Grammar of a stylesheet

The grammar is deterministic: an item is an at-rule, a comment, a rule or a declaration, and the
first of these that matches is taken. Only the outermost pieces are named in the trace; what goes on
inside a lexeme does not show in an error. -/

namespace EmbeddedCss.Css

/-- The things that an error may say were expected. -/
inductive Symbol where
  | endOfText | stylesheet | comment | rule | selector | block | atRule | atName | afterName
  | params | between | decl | property | colon | value | trailing
deriving DecidableEq, Repr

namespace Symbol

/-- All symbols, in the order in which a message lists them. -/
def all : List Symbol :=
  [endOfText, stylesheet, comment, rule, selector, block, atRule, atName, afterName, params,
    between, decl, property, colon, value, trailing]

/-- Every symbol is listed. -/
theorem mem_all (s : Symbol) : s ∈ all := by cases s <;> decide

/-- What a message calls a symbol. -/
def name : Symbol → Text
  | endOfText => "EOI".toList
  | stylesheet => "stylesheet".toList
  | comment => "comment_node".toList
  | rule => "rule".toList
  | selector => "selector".toList
  | block => "block".toList
  | atRule => "at_rule".toList
  | atName => "at_name".toList
  | afterName => "at_after_name".toList
  | params => "at_params".toList
  | between => "at_between".toList
  | decl => "decl".toList
  | property => "prop".toList
  | colon => "decl_between".toList
  | value => "value".toList
  | trailing => "value_trailing".toList

end Symbol

namespace Grammar

open EmbeddedCss.Parser

variable (body : Parser Symbol Body)

/-- A body in braces. -/
def block : Parser Symbol Body := named .block do
  char '{'
  let b ← body
  char '}'
  return b

/-- A selector and a block. -/
def rule : Parser Symbol Item := named .rule do
  let selector ← token .selector Lexeme.prelude
  let between ← lexeme Lexeme.spaces
  return .rule selector between (← block body)

/-- The parameters of an at-rule with the white space in front of them. -/
def params : Parser Symbol (Text × Text) := do
  let space ← token .afterName Lexeme.spaces
  return (space, ← token .params Lexeme.prelude)

/-- What ends an at-rule: white space, and then a block or a semicolon that is not read yet. -/
def atEnd : Parser Symbol (Text × Option Body) := do
  let space ← token .between Lexeme.spaces
  orElse (do return (space, some (← block body)))
    (do ahead (fun r ↦ r.head? == some ';'); return (space, none))

/-- An at-rule. Where neither a block nor a semicolon follows, it ends with its parameters. -/
def atRule : Parser Symbol Item := named .atRule do
  char '@'
  let name ← token .atName Lexeme.atName
  let params ← optional params
  match ← optional (atEnd body) with
  | none => return .statement name params none
  | some (between, none) => return .statement name params (some between)
  | some (between, some b) => return .atBlock name params between b

/-- A declaration. Its value may be missing. -/
def decl : Parser Symbol Item := named .decl do
  let property ← token .property Lexeme.property
  let colon ← token .colon Lexeme.colon
  let value ← optional (token .value Lexeme.prelude)
  let trailing ← optional (token .trailing Lexeme.trailing)
  return .decl property colon (value.getD [] ++ trailing.getD [])

/-- An item of a body. -/
def item : Parser Symbol Item :=
  orElse (atRule body) <| orElse (.comment <$> token .comment Lexeme.loneComment) <|
    orElse (rule body) decl

end Grammar

open EmbeddedCss.Parser in
/-- The items of a body and the gaps between them. The fuel bounds the items and the blocks on the
way to one; each takes a character at least, so that the length of the text is enough. -/
def Grammar.body : Nat → Parser Symbol Body
  | 0 => fail
  | fuel + 1 => do
    let gap ← lexeme Lexeme.gap
    let item? ← optional (Grammar.item (Grammar.body fuel))
    match item? with
    | none => return .done gap
    | some item => return .item gap item (← Grammar.body fuel)

open EmbeddedCss.Parser in
/-- A whole stylesheet, for a text of at most `length` characters. -/
def Grammar.stylesheet (length : Nat) : Parser Symbol Body := named .stylesheet do
  let b ← Grammar.body (length + 1)
  named .endOfText (ahead List.isEmpty)
  return b

end EmbeddedCss.Css
