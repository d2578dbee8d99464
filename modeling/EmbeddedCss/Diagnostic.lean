import EmbeddedCss.Position
import EmbeddedCss.Span

/-! # Diagnostics

A complaint about a stretch of text, and the excerpt that shows it to a person. -/

namespace EmbeddedCss

/-- What is wrong, where, and perhaps what to do about it. -/
@[ext]
structure Diagnostic where
  /-- The bytes complained about. -/
  span : Span
  /-- What is wrong. -/
  message : Text
  /-- A guess at the cause. -/
  hint : Option Text := none
deriving DecidableEq, Repr

namespace Diagnostic

/-- The same complaint about a text in which everything stands `n` bytes later. -/
def shift (d : Diagnostic) (n : Nat) : Diagnostic := { d with span := d.span.shift n }

/-- Numbers in the gutter are set flush right in three columns. -/
def gutter (line : Nat) : Text :=
  let digits := Text.ofNat line
  List.replicate (3 - digits.length) ' ' ++ digits

/-- The line of the source that the excerpt shows; empty past the last line. -/
def sourceLine (source : Text) (line : Nat) : Text := ((Text.lines source)[line - 1]?).getD []

/-- The carets under the complained-about bytes; at least one is drawn. -/
def pointer (d : Diagnostic) (column : Nat) : Text :=
  List.replicate (column - 1) ' ' ++ List.replicate (max d.span.length 1) '^'

/-- The message, its place, the line of `source` it points into with the carets under it, and the
hint. The place starts with the name of the file where there is one. -/
def excerpt (d : Diagnostic) (source : Text) (name : Option Text) : Text :=
  let place := Position.ofOffset source d.span.start
  "Error: ".toList ++ d.message ++
    "\n --> ".toList ++ (name.elim [] (· ++ [':'])) ++
      Text.ofNat place.line ++ [':'] ++ Text.ofNat place.column ++
    "\n  |\n".toList ++ gutter place.line ++ " | ".toList ++ sourceLine source place.line ++
    "\n    | ".toList ++ d.pointer place.column ++
    d.hint.elim [] ("\n  = hint: ".toList ++ ·)

end Diagnostic

end EmbeddedCss
