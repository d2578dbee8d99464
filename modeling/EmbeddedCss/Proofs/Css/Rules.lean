import EmbeddedCss.Proofs.Peg.Basic

/-! # The rules of a stylesheet

The grammar of stylesheets in the form of parsing expressions. White space is written out wherever
it may stand.

A comment stays with what follows it if that is the rest of a declaration (`/*c*/: v` up to a
semicolon or a closing brace), a block (`/*c*/ {`), or a part of a selector that is written right
against it (`/*c*/:hover {`). Anything else behind it leaves the comment on its own. -/

namespace EmbeddedCss.Css

/-- The names of the rules. -/
inductive RuleName where
  | stylesheet | endOfInput
  | body | gap | node | ws
  | commentNode | attachedTail | propertyTail | selectorTail | lookaheadAtom
  | rule | selector | block
  | atRule | atName | atAfterName | atParams | atBetween
  | decl | prop | propChar | declBetween | value | valueTrailing
  | prelude | preludeAtom
  | comment | string | parenGroup | bracketGroup
deriving DecidableEq

namespace RuleName

open Peg Peg.Expr

/-- What a rule leaves where it matches. -/
def kind : RuleName → RuleKind
  | stylesheet | endOfInput | rule | block | atRule | decl => .normal
  | commentNode | selector | atName | atAfterName | atParams | atBetween | prop | declBetween
  | value | valueTrailing | comment | string | parenGroup | bracketGroup => .atomic
  | body | gap | node | ws | attachedTail | propertyTail | selectorTail | lookaheadAtom | propChar
  | prelude | preludeAtom => .silent

/-- One given character. -/
def lit (c : Char) : Expr RuleName := text [c]

/-- Any character where an expression does not match. -/
def anyBut (e : Expr RuleName) : Expr RuleName := inOrder [not e, any]

/-- What stands between two quotes. -/
def quoted (quote : Char) : Expr RuleName :=
  inOrder [lit quote,
    star (firstOf [inOrder [lit '\\', any], anyBut (firstOf [lit quote, lit '\n'])]),
    lit quote]

/-- What stands between two characters that nest. -/
def grouped (opener closer : Char) (nested : RuleName) : Expr RuleName :=
  inOrder [lit opener,
    star (firstOf [call comment, call string, call nested, anyBut (lit closer)]),
    lit closer]

/-- What a rule matches. -/
def expr : RuleName → Expr RuleName
  | stylesheet => inOrder [start, call body, call endOfInput]
  | endOfInput => not any
  | body => inOrder [star (inOrder [call gap, call node]), call gap]
  | gap => star (firstOf [call ws, lit ';'])
  | node => firstOf [call atRule, call commentNode, call rule, call decl]
  | ws => firstOf [lit ' ', lit '\t', lit '\n', lit '\r', lit '\x0c']
  | commentNode => inOrder [call comment, not (call attachedTail)]
  | attachedTail =>
    firstOf [call propertyTail, inOrder [star (call ws), lit '{'], call selectorTail]
  | propertyTail =>
    inOrder [star (call ws), lit ':', star (call lookaheadAtom), not (lit '{')]
  | selectorTail =>
    inOrder [not (firstOf [call ws, lit ';', lit '}', lit '{']), star (call lookaheadAtom), lit '{']
  | lookaheadAtom =>
    firstOf [call comment, call string, call parenGroup, call bracketGroup,
      anyBut (firstOf [lit '{', lit '}', lit ';'])]
  | rule => inOrder [call selector, star (call ws), call block]
  | selector => call prelude
  | block => inOrder [lit '{', call body, lit '}']
  | atRule =>
    inOrder [lit '@', call atName, opt (inOrder [call atAfterName, call atParams]),
      opt (firstOf [inOrder [call atBetween, call block], inOrder [call atBetween, and (lit ';')]])]
  | atName => plus (firstOf [lit '-', lit '_', char Char.isAlphanum])
  | atAfterName => star (call ws)
  | atParams => call prelude
  | atBetween => star (call ws)
  | decl => inOrder [call prop, call declBetween, opt (call value), opt (call valueTrailing)]
  | prop => plus (firstOf [call comment, call propChar])
  | propChar =>
    anyBut (firstOf [call ws, lit ':', lit ';', lit '{', lit '}', text ['/', '*']])
  | declBetween => inOrder [star (call ws), lit ':', star (call ws)]
  | value => call prelude
  | valueTrailing => inOrder [plus (call ws), and (lit ';')]
  | prelude => inOrder [call preludeAtom, star (inOrder [star (call ws), call preludeAtom])]
  | preludeAtom =>
    firstOf [call comment, call string, call parenGroup, call bracketGroup,
      anyBut (firstOf [call ws, lit '{', lit '}', lit ';', text ['/', '*'], lit '"', lit '\'',
        lit '(', lit '['])]
  | comment => inOrder [text ['/', '*'], star (anyBut (text ['*', '/'])), text ['*', '/']]
  | string => firstOf [quoted '"', quoted '\'']
  | parenGroup => grouped '(' ')' parenGroup
  | bracketGroup => grouped '[' ']' bracketGroup

end RuleName

/-- The grammar of stylesheets. -/
def grammar : Peg.Grammar RuleName := ⟨RuleName.kind, RuleName.expr⟩

end EmbeddedCss.Css
