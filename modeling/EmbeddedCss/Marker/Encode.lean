import EmbeddedCss.Marker.Context
import EmbeddedCss.Marker.Table
import EmbeddedCss.Options.Basic

/-! # Encoding a template as a stylesheet

Each interpolation of a template is replaced by a marker, and the literal text stays as it is. The
label of the markers is chosen so that it cannot be mistaken for literal text. What is needed to go
back is kept: the interpolations by number, and where each marker and interpolation stands. -/

namespace EmbeddedCss.Marker

/-! ## Labels -/

/-- Whether literal text could be taken for a marker with this label. -/
def isTaken (literals : List Text) (label : Text) : Bool :=
  literals.any (Text.occurs (label ++ [':']))

/-- A label told apart by a number. -/
def salted (base : Text) (n : Nat) : Text := base ++ '_' :: Text.ofNat n

/-- The first label that is not taken among those with the numbers from `n` on. One that comes after
`fuel` others is not looked at any more. -/
def firstFree (literals : List Text) (base : Text) : (fuel n : Nat) → Text
  | 0, n => salted base n
  | fuel + 1, n =>
    if isTaken literals (salted base n) then firstFree literals base fuel (n + 1)
    else salted base n

/-- The label for a template: `base`, or if that is taken the first free one with a number. Each
label that is taken has a colon in the literal text to itself, which bounds the search. -/
def chooseLabel (base : Text) (literals : List Text) : Text :=
  if isTaken literals base then firstFree literals base (literals.flatten.count ':') 1 else base

/-! ## Slots -/

/-- An interpolation with its marker and the literal text after it. -/
structure Slot where
  /-- What stands for the interpolation. -/
  marker : Text
  /-- The code of the interpolation. -/
  code : Text
  /-- The literal text after it. -/
  literal : Text
deriving DecidableEq, Repr

/-- The marker for a context. -/
def forContext (label : Text) (index : Nat) : Context → Text
  | .comment => bare label index
  | .code | .string _ => comment label index

/-- The slots of a tail of a template, numbered from `index`, that is reached in context `ctx`. The
literal texts are read one by one, as if the interpolations between them were not there. -/
def slots (label : Text) (ctx : Context) (index : Nat) : List (Text × Text) → List Slot
  | [] => []
  | (code, literal) :: rest =>
    ⟨forContext label index ctx, code, literal⟩ ::
      slots label (ctx.after literal) (index + 1) rest

/-! ## Sites -/

/-- Where an interpolation stands. -/
@[ext]
structure Site where
  /-- The number of the interpolation. -/
  index : Nat
  /-- The span of its marker in the stylesheet. -/
  marker : Span
  /-- The span of the interpolation in the template body. -/
  interpolation : Span
deriving DecidableEq, Repr

/-- The sites of some slots, numbered from `index`, that start at the offset `css` of the stylesheet
and the offset `body` of the template body. -/
def sitesFrom (index css body : Nat) : List Slot → List Site
  | [] => []
  | s :: rest =>
    let marker : Span := ⟨css, css + Text.size s.marker⟩
    let interpolation : Span := ⟨body, body + Text.size (Template.interpolation s.code)⟩
    ⟨index, marker, interpolation⟩ ::
      sitesFrom (index + 1) (marker.stop + Text.size s.literal)
        (interpolation.stop + Text.size s.literal) rest

/-- The offset in the template body for an offset in the stylesheet, among the sites after the place
with the offsets `css` and `body`. Offsets inside a marker stand for the start of its
interpolation. -/
def bodyOffsetFrom (css body : Nat) (offset : Nat) : List Site → Nat
  | [] => body + (offset - css)
  | s :: rest =>
    if offset < s.marker.start then body + (offset - css)
    else if offset < s.marker.stop then s.interpolation.start
    else bodyOffsetFrom s.marker.stop s.interpolation.stop offset rest

/-- The offset in the template body for an offset in the stylesheet. -/
def bodyOffset (sites : List Site) (offset : Nat) : Nat := bodyOffsetFrom 0 0 offset sites

/-! ## The encoding -/

/-- A template as a stylesheet, with what is needed to go back. -/
@[ext]
structure Encoding where
  /-- The stylesheet, with markers for the interpolations. -/
  css : Text
  /-- The interpolations. -/
  table : Table
  /-- Where they stand. -/
  sites : List Site
deriving DecidableEq, Repr

/-- The stylesheet of a template. -/
def encode (template : Template) (o : Options) : Encoding :=
  let label := chooseLabel o.label template.literals
  let slots := slots label (Context.code.after template.head) 0 template.tail
  let start := Text.size template.head
  { css := template.head ++ (slots.map fun s ↦ s.marker ++ s.literal).flatten
    table := ⟨label, slots.map fun s ↦ some (Text.padded s.code)⟩
    sites := sitesFrom 0 start start slots }

end EmbeddedCss.Marker
