import EmbeddedCss.Css.Parse
import EmbeddedCss.Css.Printer
import EmbeddedCss.Marker.Encode
import EmbeddedCss.Template.Split

/-! # Stylesheets in templates

The stylesheet of one template, with the table that puts its interpolations back. The table can be
changed or dropped like the tree; a marker whose interpolation is gone is printed as it is. -/

namespace EmbeddedCss

/-- Why a stylesheet cannot be read from a template or a file. -/
inductive SheetError where
  /-- The options are not valid. -/
  | options (error : OptionsError)
  /-- A template literal cannot be taken apart. -/
  | template (error : TemplateError)
  /-- The stylesheet in the template with number `index` cannot be read. -/
  | css (index : Nat) (diagnostic : Diagnostic)
deriving DecidableEq, Repr

/-- The error in words. -/
def SheetError.message : SheetError → Text
  | .options e => "invalid options: ".toList ++ e.message
  | .template e => e.message
  | .css index d => "template ".toList ++ Text.ofNat index ++ ": ".toList ++ d.message

/-- The same error where the template stands `n` bytes later. Only an error inside the stylesheet
has a place in the template. -/
def SheetError.shift (n : Nat) : SheetError → SheetError
  | .css index d => .css index (d.shift n)
  | e => e

/-- The stylesheet of a template. -/
@[ext]
structure Sheet where
  /-- The tree, with markers for the interpolations. -/
  root : Css.Root
  /-- The interpolations. -/
  table : Option Marker.Table
  /-- Where markers and interpolations stood. -/
  sites : List Marker.Site
deriving DecidableEq, Repr

namespace Sheet

/-- The chunks of a template body, with the interpolations put back. -/
def chunks (sheet : Sheet) : List Text := sheet.root.chunks.map (Marker.restore sheet.table)

/-- The template body, with the interpolations put back. -/
def text (sheet : Sheet) : Text := sheet.chunks.flatten

/-- How many interpolations are put back in the whole body, and how many are gone. -/
def tally (sheet : Sheet) : Marker.Tally := Marker.tally sheet.table sheet.root.chunks

/-- The offset in the template body for an offset in the stylesheet. -/
def bodyOffset (sheet : Sheet) (offset : Nat) : Nat := Marker.bodyOffset sheet.sites offset

/-- Read the stylesheet of a template, which is number `index` of its file. The place of an error is
given in the template body. -/
def ofTemplateAt (index : Nat) (template : Template) (o : Options) : Except SheetError Sheet :=
  let e := Marker.encode template o
  match Css.parse e.css with
  | .ok root => .ok ⟨root, some e.table, e.sites⟩
  | .error d =>
    let span := ⟨Marker.bodyOffset e.sites d.span.start, Marker.bodyOffset e.sites d.span.stop⟩
    .error (.css index { d with span })

/-- Read the stylesheet of a template. -/
def ofTemplate (template : Template) (o : Options) : Except SheetError Sheet := do
  o.validate.mapError .options
  ofTemplateAt 0 template o

/-- Read the stylesheet of a template body. The body is taken apart before the options are looked
at. -/
def ofText (body : Text) (o : Options) : Except SheetError Sheet := do
  ofTemplate (← (Template.ofText body).mapError .template) o

end Sheet

end EmbeddedCss
