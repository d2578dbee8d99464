import EmbeddedCss.Marker.Basic
import EmbeddedCss.Template.Basic
import EmbeddedCss.Text.Blank

/-! # Tables of interpolations

The interpolations of a template by number, and how they are put back where their markers stand. An
entry can be taken out; its marker is then left as it is. -/

namespace EmbeddedCss.Marker

/-- The interpolations of one template. -/
@[ext]
structure Table where
  /-- The label of the markers. -/
  label : Text
  /-- The code of the interpolations that are still there, with the blanks around it. -/
  entries : List (Option Text.Padded) := []
deriving DecidableEq, Repr

namespace Table

/-- The entry of an interpolation. -/
def get? (t : Table) (index : Nat) : Option Text.Padded := (t.entries[index]?).join

/-- Take out the entry of one interpolation. The others keep their numbers. -/
def remove (t : Table) (index : Nat) : Table := { t with entries := t.entries.set index none }

/-- Take out all entries and forget their numbers. -/
def clear (t : Table) : Table := { t with entries := [] }

/-- The text of an interpolation. -/
def resolve (t : Table) (index : Nat) : Option Text :=
  (t.get? index).map fun p ↦ Template.interpolation p.text

@[simp] theorem get?_remove_self (t : Table) (i : Nat) : (t.remove i).get? i = none := by
  simp only [get?, remove, List.getElem?_set]
  split <;> (try split) <;> simp_all

@[simp] theorem get?_remove_of_ne (t : Table) {i j : Nat} (h : i ≠ j) :
    (t.remove i).get? j = t.get? j := by
  simp [get?, remove, List.getElem?_set_ne h]

@[simp] theorem get?_clear (t : Table) (i : Nat) : t.clear.get? i = none := by
  simp [get?, clear]

end Table

/-! ## Putting interpolations back -/

/-- How many markers were replaced, and how many were found whose entry is gone. -/
@[ext]
structure Tally where
  /-- Markers replaced. -/
  restored : Nat := 0
  /-- Markers whose entry is gone. -/
  unresolved : Nat := 0
deriving DecidableEq, Repr

/-- Count one marker. -/
def Tally.count (t : Table) (tally : Tally) (index : Nat) : Tally :=
  if (t.resolve index).isSome then { tally with restored := tally.restored + 1 }
  else { tally with unresolved := tally.unresolved + 1 }

/-- A chunk of text with its interpolations put back. Without a table nothing changes. -/
def restore (table : Option Table) (chunk : Text) : Text :=
  match table with
  | none => chunk
  | some t => replaceAll t.label t.resolve chunk

/-- The tally after a chunk of text. -/
def tallyChunk (table : Option Table) (tally : Tally) (chunk : Text) : Tally :=
  match table with
  | none => tally
  | some t => (indices t.label chunk).foldl (Tally.count t) tally

/-- The tally after some chunks of text. -/
def tally (table : Option Table) (chunks : List Text) : Tally :=
  chunks.foldl (tallyChunk table) {}

end EmbeddedCss.Marker
