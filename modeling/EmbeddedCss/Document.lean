import EmbeddedCss.Host.Scan
import EmbeddedCss.Position
import EmbeddedCss.Sheet

/-! # Documents

A file of host code with the stylesheets that are embedded in it. The code between them is kept as
it is, and each stylesheet has a table of its own, so that the markers of one never meet those of
another. -/

namespace EmbeddedCss

/-- A stylesheet in a file. -/
@[ext]
structure Embedded where
  /-- The code from the end of the stylesheet before, or the start of the file, up to and with the
  opening backtick. -/
  leadingCode : Text
  /-- The tag of the template literal. -/
  tag : Text
  /-- Where the template body stood in the file. -/
  content : Span
  /-- The stylesheet. -/
  sheet : Sheet
deriving DecidableEq, Repr

namespace Embedded

/-- The offset in the file for an offset in the stylesheet. -/
def offsetInFile (e : Embedded) (offset : Nat) : Nat :=
  e.content.start + e.sheet.bodyOffset offset

/-- The place in the file, whose text is `source`, for an offset in the stylesheet. -/
def positionOf (e : Embedded) (source : Text) (offset : Nat) : Position :=
  Position.ofOffset source (e.offsetInFile offset)

/-- The place in the file where a node starts, if it was read from there. -/
def positionOfNode (e : Embedded) (source : Text) (n : Css.Node) : Option Position :=
  n.source.map fun span ↦ e.positionOf source span.start

end Embedded

/-- A file cut into code and stylesheets. -/
@[ext]
structure Document where
  /-- The stylesheets, each with the code in front of it. -/
  sheets : List Embedded
  /-- The code after the last stylesheet, with its closing backtick. -/
  trailingCode : Text
deriving DecidableEq, Repr

namespace Document

/-- The chunks of a file, with the interpolations put back. Code is one chunk even where there is
none. -/
def chunks (d : Document) : List Text :=
  d.sheets.flatMap (fun e ↦ e.leadingCode :: e.sheet.chunks) ++ [d.trailingCode]

/-- The file, with the interpolations put back. -/
def text (d : Document) : Text := d.chunks.flatten

/-! ## Editing

An edit of a stylesheet that is not there changes nothing. -/

/-- Change one of the embedded stylesheets. -/
def modify (d : Document) (index : Nat) (f : Embedded → Embedded) : Document :=
  { d with sheets := d.sheets.modify index f }

/-- Take out a stylesheet together with the code in front of it. -/
def erase (d : Document) (index : Nat) : Document :=
  { d with sheets := d.sheets.eraseIdx index }

/-- Swap two stylesheets, each with the code in front of it. -/
def swap (d : Document) (i j : Nat) : Document :=
  match d.sheets[i]?, d.sheets[j]? with
  | some a, some b => { d with sheets := (d.sheets.set i b).set j a }
  | _, _ => d

/-- Give a stylesheet the interpolations of another. -/
def copyTable (d : Document) (index source : Nat) : Document :=
  match d.sheets[source]? with
  | some e => d.modify index fun f ↦ { f with sheet := { f.sheet with table := e.sheet.table } }
  | none => d

/-! ## Reading -/

/-- Read the stylesheets that were found, numbered from `index`, in a file whose text is `source`.
The code from `cursor` on is not accounted for yet. -/
def ofFound (o : Options) (source : Text) (index cursor : Nat) :
    List Host.Tagged → Except SheetError Document
  | [] => .ok ⟨[], Text.dropBytes cursor source⟩
  | found :: rest => do
    let sheet ← (Sheet.ofTemplateAt index found.template o).mapError
      (SheetError.shift found.content.start)
    let later ← ofFound o source (index + 1) found.content.stop rest
    let leadingCode := Text.slice source ⟨cursor, found.content.start⟩
    return { later with sheets := ⟨leadingCode, found.tag, found.content, sheet⟩ :: later.sheets }

/-- Read the stylesheets of a file. -/
def ofText (source : Text) (o : Options) : Except SheetError Document := do
  o.validate.mapError .options
  let found ← (Host.scan o source).mapError .template
  ofFound o source 0 0 found

end Document

end EmbeddedCss
