import EmbeddedCss.Text.Basic

/-! # Line and column

What a person calls a place in a file. Lines and columns count from one, and a column counts
characters, while offsets count bytes. -/

namespace EmbeddedCss

/-- A place in a text, for people. -/
@[ext]
structure Position where
  /-- The line, from one. -/
  line : Nat
  /-- The column in characters, from one. -/
  column : Nat
deriving DecidableEq, Repr

namespace Position

/-- The place after reading one character at `p`. Only a line feed starts a new line. -/
def advance (p : Position) (c : Char) : Position :=
  if c = '\n' then ⟨p.line + 1, 1⟩ else ⟨p.line, p.column + 1⟩

/-- The place of the byte at `offset` in a text that starts at `p`. An offset inside a character
stands for the end of it, and one past the end for the end of the text. -/
def locate (p : Position) : Text → Nat → Position
  | [], _ => p
  | c :: t, offset => if offset = 0 then p else (p.advance c).locate t (offset - c.utf8Size)

/-- The place of the byte at `offset` in a text. -/
def ofOffset (t : Text) (offset : Nat) : Position := locate ⟨1, 1⟩ t offset

@[simp] theorem locate_zero (p : Position) (t : Text) : p.locate t 0 = p := by
  cases t <;> rfl

/-- The place after a leading part of a text is found by reading that part. -/
theorem locate_append (p : Position) (s t : Text) :
    p.locate (s ++ t) (Text.size s) = s.foldl advance p := by
  induction s generalizing p with
  | nil => simp
  | cons c s ih =>
    have := c.utf8Size_pos
    simp only [List.cons_append, locate, Text.size_cons, List.foldl_cons]
    rw [if_neg (by omega), Nat.add_sub_cancel_left, ih]

end Position

end EmbeddedCss
