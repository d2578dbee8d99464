import EmbeddedCss.Text.Basic

/-! # Blank characters and the padding of a text

A text is cut into leading blanks, a core, and trailing blanks. Blank is what Unicode calls white
space, which is more than the white space that separates the words of a stylesheet or a program. -/

namespace EmbeddedCss.Text

/-- The white space of stylesheets and programs. -/
def isSpace (c : Char) : Bool := c == ' ' || c == '\t' || c == '\n' || c == '\r' || c == '\x0c'

/-- The characters with the Unicode property `White_Space`. -/
def isBlank (c : Char) : Bool :=
  let n := c.toNat
  (0x09 ≤ n && n ≤ 0x0d) || n == 0x20 || n == 0x85 || n == 0xa0 || n == 0x1680 ||
    (0x2000 ≤ n && n ≤ 0x200a) || n == 0x2028 || n == 0x2029 || n == 0x202f || n == 0x205f ||
    n == 0x3000

/-- Every white-space character of ASCII is blank. -/
theorem isBlank_of_isWhitespace {c : Char} (h : c.isWhitespace = true) : isBlank c = true := by
  simp only [Char.isWhitespace, Bool.or_eq_true, decide_eq_true_eq] at h
  rcases h with ((rfl | rfl) | rfl) | rfl <;> rfl

/-- A text without its leading blanks. -/
def trimStart (t : Text) : Text := t.dropWhile isBlank

/-- A text without its trailing blanks. -/
def trimEnd (t : Text) : Text := (t.reverse.dropWhile isBlank).reverse

/-- The trailing blanks of a text. -/
def blankEnd (t : Text) : Text := (t.reverse.takeWhile isBlank).reverse

/-- A text without the blanks around it. -/
def trim (t : Text) : Text := trimEnd (trimStart t)

/-- The trailing blanks are what `trimEnd` takes away. -/
@[simp] theorem trimEnd_append_blankEnd (t : Text) : trimEnd t ++ blankEnd t = t := by
  rw [trimEnd, blankEnd, ← List.reverse_append, List.takeWhile_append_dropWhile,
    List.reverse_reverse]

/-- A text cut into leading blanks, core and trailing blanks. -/
structure Padded where
  /-- The blanks in front. -/
  leading : Text
  /-- What stands between the blanks; it starts and ends with none. -/
  core : Text
  /-- The blanks behind. -/
  trailing : Text
deriving DecidableEq, Repr

/-- The text that was cut. -/
def Padded.text (p : Padded) : Text := p.leading ++ p.core ++ p.trailing

/-- Cut a text into its padding and its core. A text of blanks only is all leading. -/
def padded (t : Text) : Padded where
  leading := t.takeWhile isBlank
  core := trim t
  trailing := blankEnd (trimStart t)

/-- The cut loses nothing. -/
@[simp] theorem text_padded (t : Text) : (padded t).text = t := by
  simp only [Padded.text, padded, trim, List.append_assoc, trimEnd_append_blankEnd]
  exact List.takeWhile_append_dropWhile

end EmbeddedCss.Text
