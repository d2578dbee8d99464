import EmbeddedCss.Text.Printable

/-! # Options

Which template literals hold a stylesheet, and how their interpolations are marked. -/

namespace EmbeddedCss

/-- How template literals are found and marked. -/
@[ext]
structure Options where
  /-- The tags whose template literals hold a stylesheet. -/
  tags : List Text := ["css".toList]
  /-- The label of the markers that stand for interpolations. -/
  label : Text := "POSTCSS_LIT".toList
  /-- Whether comments in host code can turn a file or a line off. -/
  disableComments : Bool := true
deriving DecidableEq, Repr

/-- What can be wrong with options. -/
inductive OptionsError where
  /-- The label cannot stand in a marker. -/
  | badLabel (label : Text)
  /-- The tag is not a path of identifiers. -/
  | badTag (tag : Text)
  /-- The settings cannot be read. -/
  | unreadable
deriving DecidableEq, Repr

/-- The error in words. -/
def OptionsError.message : OptionsError → Text
  | .badLabel label => "invalid placeholder prefix ".toList ++ Text.quoted label ++
      ": expected one or more of [A-Za-z0-9_-]".toList
  | .badTag tag => "invalid tag name ".toList ++ Text.quoted tag
  | .unreadable => "failed to parse options".toList

namespace Options

/-- Whether a label can stand in a marker: letters, digits, underscores and hyphens, and not
nothing. -/
def isLabel (label : Text) : Bool :=
  !label.isEmpty && label.all fun c ↦ c.isAlphanum || c == '_' || c == '-'

/-- A character of an identifier. -/
def isIdentifierChar (c : Char) : Bool := c.isAlphanum || c == '_' || c == '$'

/-- The parts of a path, which are separated by dots. -/
def pathParts : Text → List Text
  | [] => [[]]
  | c :: t =>
    if c = '.' then [] :: pathParts t
    else match pathParts t with
      | [] => [[c]]
      | part :: rest => (c :: part) :: rest

/-- Whether a tag is a path of identifiers. -/
def isTag (tag : Text) : Bool :=
  (pathParts tag).all fun part ↦ !part.isEmpty && part.all isIdentifierChar

/-- Complain about the label, or else about the first bad tag. -/
def validate (o : Options) : Except OptionsError Unit :=
  if !isLabel o.label then .error (.badLabel o.label)
  else match o.tags.find? (!isTag ·) with
    | some tag => .error (.badTag tag)
    | none => .ok ()

/-- Options are valid if the label and every tag are. -/
theorem validate_eq_ok_iff (o : Options) :
    o.validate = .ok () ↔ isLabel o.label = true ∧ ∀ tag ∈ o.tags, isTag tag = true := by
  unfold validate
  by_cases h : isLabel o.label = true
  · simp only [h, Bool.not_true, Bool.false_eq_true, if_false, true_and]
    split <;> rename_i e
    · simp only [reduceCtorEq, false_iff]
      intro all
      have := List.find?_some e
      simp [all _ (List.mem_of_find?_eq_some e)] at this
    · simpa using e
  · simp [h]

/-- The last identifier of a path. -/
def lastPart (tag : Text) : Text := (tag.reverse.takeWhile (· != '.')).reverse

/-- Whether a tag of a template literal is one of the tags asked for, as a whole or by its last
identifier. -/
def selects (o : Options) (tag : Text) : Bool :=
  o.tags.any fun t ↦ t == tag || t == lastPart tag

end Options

end EmbeddedCss
