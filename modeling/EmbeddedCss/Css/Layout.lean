import EmbeddedCss.Text.Basic

/-! # Layout

How a node was written, as far as its content does not say so. A node that was not read from a text
leaves its layout open, and the printer fills it in. -/

namespace EmbeddedCss.Css

/-- A value in its clean form together with the text it was written as. -/
structure Verbatim where
  /-- The value without the blanks after it. -/
  clean : Text
  /-- The value as written. -/
  written : Text
deriving DecidableEq, Repr

/-- The text to print for a value. The written form counts only as long as it belongs to the value
that stands there now. -/
def Verbatim.printed (verbatim : Option Verbatim) (current : Text) : Text :=
  match verbatim with
  | none => current
  | some v => if v.clean = current then v.written else current

@[simp] theorem Verbatim.printed_none (t : Text) : printed none t = t := rfl

@[simp] theorem Verbatim.printed_some (clean written : Text) :
    printed (some ⟨clean, written⟩) clean = written := by
  simp [printed]

/-- How a node was written. Each kind of node uses some of the fields. -/
@[ext]
structure Layout where
  /-- White space and stray semicolons in front of the node. -/
  before : Option Text := none
  /-- White space and stray semicolons after the last child. -/
  after : Option Text := none
  /-- The white space in front of a block, or the colon of a declaration with what surrounds it. -/
  between : Option Text := none
  /-- Whether the last child is followed by a semicolon. -/
  semicolon : Bool := false
  /-- The white space between the name of an at-rule and its parameters. -/
  afterName : Option Text := none
  /-- The blanks after the opening of a comment. -/
  left : Option Text := none
  /-- The blanks in front of the end of a comment. -/
  right : Option Text := none
  /-- The mark of importance of a declaration as written. -/
  important : Option Text := none
  /-- The value of a declaration as written, where that is not its clean form. -/
  value : Option Verbatim := none
deriving DecidableEq, Repr, Inhabited

end EmbeddedCss.Css
