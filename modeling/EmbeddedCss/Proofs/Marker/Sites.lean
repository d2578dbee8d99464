import EmbeddedCss.Marker.Encode
import EmbeddedCss.Proofs.Text.Place

/-! # Where markers and interpolations stand

The sites of a template tell where a marker stands in the stylesheet and where its interpolation
stands in the template body. Both texts run through the same literals, so that behind the marker and
behind the interpolation stands the same literal. -/

namespace EmbeddedCss.Marker

/-- The stylesheet of some slots. -/
def cssOf (ss : List Slot) : Text := (ss.map fun s ↦ s.marker ++ s.literal).flatten

/-- The template body of some slots. -/
def bodyOf (ss : List Slot) : Text :=
  (ss.map fun s ↦ Template.interpolation s.code ++ s.literal).flatten

@[simp] theorem cssOf_nil : cssOf [] = [] := rfl

@[simp] theorem bodyOf_nil : bodyOf [] = [] := rfl

@[simp] theorem cssOf_cons (s : Slot) (ss : List Slot) :
    cssOf (s :: ss) = s.marker ++ (s.literal ++ cssOf ss) := by
  simp [cssOf]

@[simp] theorem bodyOf_cons (s : Slot) (ss : List Slot) :
    bodyOf (s :: ss) = Template.interpolation s.code ++ (s.literal ++ bodyOf ss) := by
  simp [bodyOf]

/-- A slot has this site: its marker stands in the stylesheet and its interpolation in the template
body, and the literal of the slot follows in both. -/
structure IsSite (css body : Text) (s : Slot) (site : Site) : Prop where
  marker : site.marker.stop = site.marker.start + Text.size s.marker
  interpolation : site.interpolation.stop =
    site.interpolation.start + Text.size (Template.interpolation s.code)
  inCss : ∃ r, Text.StandsAt css site.marker.start (s.marker ++ (s.literal ++ r))
  inBody : ∃ r, Text.StandsAt body site.interpolation.start
    (Template.interpolation s.code ++ (s.literal ++ r))

/-- The marker of a slot is what its site covers in the stylesheet. -/
theorem IsSite.slice_marker {css body : Text} {s : Slot} {site : Site}
    (h : IsSite css body s site) : Text.slice css site.marker = s.marker := by
  obtain ⟨r, hr⟩ := h.inCss
  rw [show site.marker = ⟨site.marker.start, site.marker.start + Text.size s.marker⟩ from
    Span.ext rfl h.marker]
  exact hr.slice_eq

/-- Each slot has a site. -/
theorem exists_site {css body : Text} {ss : List Slot} {index m n : Nat}
    (hcss : Text.StandsAt css m (cssOf ss)) (hbody : Text.StandsAt body n (bodyOf ss))
    {i : Nat} {s : Slot} (hs : ss[i]? = some s) :
    ∃ site, (sitesFrom index m n ss)[i]? = some site ∧ IsSite css body s site := by
  induction ss generalizing index m n i with
  | nil => simp at hs
  | cons s' ss ih =>
    rw [cssOf_cons] at hcss
    rw [bodyOf_cons] at hbody
    cases i with
    | zero =>
      obtain rfl : s' = s := by simpa using hs
      exact ⟨_, rfl, rfl, rfl, ⟨_, hcss⟩, ⟨_, hbody⟩⟩
    | succ i => exact ih hcss.advance.advance hbody.advance.advance hs

/-! ## The sites of a template -/

section Encode

variable (t : Template) (o : Options)

/-- The slots of a template. -/
def templateSlots : List Slot :=
  slots (encode t o).table.label (Context.code.after t.head) 0 t.tail

theorem css_encode_eq : (encode t o).css = t.head ++ cssOf (templateSlots t o) := rfl

theorem sites_encode_eq : (encode t o).sites =
    sitesFrom 0 (Text.size t.head) (Text.size t.head) (templateSlots t o) := rfl

theorem length_slots (label : Text) (ctx : Context) (index : Nat) (tail : List (Text × Text)) :
    (slots label ctx index tail).length = tail.length := by
  induction tail generalizing ctx index with
  | nil => rfl
  | cons p tail ih => rw [slots, List.length_cons, ih, List.length_cons]

theorem code_slots (label : Text) (ctx : Context) (index : Nat) (tail : List (Text × Text)) :
    (slots label ctx index tail).map Slot.code = tail.map Prod.fst := by
  induction tail generalizing ctx index with
  | nil => rfl
  | cons p tail ih => rw [slots, List.map_cons, ih, List.map_cons]

theorem literal_slots (label : Text) (ctx : Context) (index : Nat) (tail : List (Text × Text)) :
    (slots label ctx index tail).map Slot.literal = tail.map Prod.snd := by
  induction tail generalizing ctx index with
  | nil => rfl
  | cons p tail ih => rw [slots, List.map_cons, ih, List.map_cons]

theorem length_sitesFrom (index css body : Nat) (ss : List Slot) :
    (sitesFrom index css body ss).length = ss.length := by
  induction ss generalizing index css body with
  | nil => rfl
  | cons s ss ih => rw [sitesFrom, List.length_cons, ih, List.length_cons]

theorem bodyOf_slots (label : Text) (ctx : Context) (index : Nat) (tail : List (Text × Text)) :
    bodyOf (slots label ctx index tail) =
      (tail.map fun p ↦ Template.interpolation p.1 ++ p.2).flatten := by
  induction tail generalizing ctx index with
  | nil => rfl
  | cons p tail ih => rw [slots, bodyOf_cons, ih, List.map_cons, List.flatten_cons,
      List.append_assoc]

/-- The template body runs through the slots behind its first literal. -/
theorem text_eq_bodyOf : t.text = t.head ++ bodyOf (templateSlots t o) := by
  rw [templateSlots, bodyOf_slots]
  rfl

theorem exists_site_encode {i : Nat} {s : Slot} (hs : (templateSlots t o)[i]? = some s) :
    ∃ site, (encode t o).sites[i]? = some site ∧ IsSite (encode t o).css t.text s site :=
  exists_site ⟨t.head, rfl, rfl⟩ ⟨t.head, text_eq_bodyOf t o, rfl⟩ hs

end Encode

end EmbeddedCss.Marker
