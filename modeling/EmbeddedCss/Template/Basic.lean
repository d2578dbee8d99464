import EmbeddedCss.Span

/-! # Templates

The body of a template literal: pieces of literal text with an interpolation between each two of
them. An interpolation is the code between its opening `${` and its closing brace, as written. -/

namespace EmbeddedCss

/-- A template body. There is one more literal than there are interpolations. -/
@[ext]
structure Template where
  /-- The literal text in front of the first interpolation. -/
  head : Text
  /-- Each interpolation with the literal text after it. -/
  tail : List (Text × Text) := []
deriving DecidableEq, Repr

namespace Template

/-- An interpolation as it stands in a template. -/
def interpolation (code : Text) : Text := ['$', '{'] ++ code ++ ['}']

/-- The braces and the dollar sign take three bytes. -/
@[simp] theorem size_interpolation (code : Text) :
    Text.size (interpolation code) = Text.size code + 3 := by
  simp [interpolation, show '$'.utf8Size = 1 from rfl, show '{'.utf8Size = 1 from rfl,
    show '}'.utf8Size = 1 from rfl]
  omega

/-- The literal texts, in order. -/
def literals (t : Template) : List Text := t.head :: t.tail.map Prod.snd

/-- The code of the interpolations, in order. -/
def codes (t : Template) : List Text := t.tail.map Prod.fst

/-- The interpolations of a tail that starts at `offset`, with the spans they take there. -/
def locate (offset : Nat) : List (Text × Text) → List (Located Text)
  | [] => []
  | (code, literal) :: rest =>
    let stop := offset + Text.size (interpolation code)
    ⟨code, ⟨offset, stop⟩⟩ :: locate (stop + Text.size literal) rest

/-- The code of the interpolations with the spans they take in the body. -/
def interpolations (t : Template) : List (Located Text) := locate (Text.size t.head) t.tail

/-- The body as written. -/
def text (t : Template) : Text :=
  t.head ++ (t.tail.map fun p ↦ interpolation p.1 ++ p.2).flatten

/-- The template with `s` written in front of it. -/
def prepend (s : Text) (t : Template) : Template := { t with head := s ++ t.head }

/-- The template with an interpolation in front of it. -/
def interpolate (code : Text) (t : Template) : Template := ⟨[], (code, t.head) :: t.tail⟩

@[simp] theorem text_prepend (s : Text) (t : Template) : (t.prepend s).text = s ++ t.text := by
  simp [text, prepend]

@[simp] theorem text_interpolate (code : Text) (t : Template) :
    (t.interpolate code).text = interpolation code ++ t.text := by
  simp [text, interpolate]

/-- One more literal than interpolations. -/
theorem length_literals (t : Template) : t.literals.length = t.codes.length + 1 := by
  simp [literals, codes]

/-- Put a template together from its literals and the code of its interpolations, if their numbers
go together. -/
def ofPieces? (literals codes : List Text) : Option Template :=
  match literals with
  | [] => none
  | head :: rest => if rest.length = codes.length then some ⟨head, codes.zip rest⟩ else none

end Template

end EmbeddedCss
