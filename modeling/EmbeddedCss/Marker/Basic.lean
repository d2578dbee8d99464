import EmbeddedCss.Text.Basic

/-! # Markers

In a stylesheet an interpolation is stood for by a marker: a comment that holds a label and the
number of the interpolation. A comment cannot stand inside a comment, so that a marker there has a
form without the delimiters.

A text is cut into the markers it holds, from left to right and without overlap, and the characters
between them. The main statement is that the pieces make up the text. -/

namespace EmbeddedCss.Marker

/-- The marker of an interpolation: `/*label:index*/`. -/
def comment (label : Text) (index : Nat) : Text :=
  ['/', '*'] ++ label ++ [':'] ++ Text.ofNat index ++ ['*', '/']

/-- The marker of an interpolation inside a comment: `label:index:`. -/
def bare (label : Text) (index : Nat) : Text := label ++ [':'] ++ Text.ofNat index ++ [':']

/-! ## Recognising markers -/

/-- Digits between `opening` and `closing` at the start of a text, and what is left after them. -/
def digitsBetween (opening closing : Text) (s : Text) : Option (Text × Text) :=
  match Text.dropStart? opening s with
  | none => none
  | some r =>
    let digits := r.takeWhile Char.isDigit
    if digits.isEmpty then none
    else (Text.dropStart? closing (r.dropWhile Char.isDigit)).map fun rest ↦ (digits, rest)

/-- What stands in front of the digits of a marker that is a comment. -/
def commentOpening (label : Text) : Text := ['/', '*'] ++ label ++ [':']

/-- What stands in front of the digits of a bare marker. -/
def bareOpening (label : Text) : Text := label ++ [':']

/-- A piece of a text that may hold markers. -/
inductive Piece where
  /-- A character outside of markers. -/
  | char (c : Char)
  /-- A marker that is a comment, with its digits as written. -/
  | comment (digits : Text)
  /-- A bare marker, with its digits as written. -/
  | bare (digits : Text)
deriving DecidableEq, Repr

namespace Piece

/-- A piece as written. -/
def text (label : Text) : Piece → Text
  | .char c => [c]
  | .comment digits => commentOpening label ++ digits ++ ['*', '/']
  | .bare digits => bareOpening label ++ digits ++ [':']

/-- The digits of a marker. -/
def digits? : Piece → Option Text
  | .char _ => none
  | .comment digits | .bare digits => some digits

end Piece

/-- The marker at the start of a text, and what is left. Where both forms match, it is a comment. -/
def markerAt (label s : Text) : Option (Piece × Text) :=
  match digitsBetween (commentOpening label) ['*', '/'] s with
  | some (digits, rest) => some (.comment digits, rest)
  | none => (digitsBetween (bareOpening label) [':'] s).map fun p ↦ (.bare p.1, p.2)

theorem digitsBetween_eq_some {opening closing s digits rest : Text}
    (h : digitsBetween opening closing s = some (digits, rest)) :
    s = opening ++ digits ++ closing ++ rest ∧ digits ≠ [] ∧ ∀ c ∈ digits, c.isDigit = true := by
  unfold digitsBetween at h
  split at h
  · simp at h
  · rename_i r hr
    simp only [Option.ite_none_left_eq_some, Option.map_eq_some_iff, Prod.mk.injEq] at h
    obtain ⟨hne, rest', hc, rfl, rfl⟩ := h
    rw [Text.dropStart?_eq_some_iff] at hr hc
    refine ⟨?_, by simpa using hne, List.all_eq_true.1 List.all_takeWhile⟩
    rw [← hr, List.append_assoc, List.append_assoc, hc, List.takeWhile_append_dropWhile]

/-- A marker and what is left make up the text. -/
theorem text_of_markerAt {label s rest : Text} {m : Piece} (h : markerAt label s = some (m, rest)) :
    m.text label ++ rest = s ∧ m.text label ≠ [] := by
  unfold markerAt at h
  split at h
  · rename_i digits r hd
    simp only [Option.some.injEq, Prod.mk.injEq] at h
    obtain ⟨rfl, rfl⟩ := h
    simp [Piece.text, (digitsBetween_eq_some hd).1, commentOpening]
  · simp only [Option.map_eq_some_iff, Prod.mk.injEq, Prod.exists] at h
    obtain ⟨digits, r, hd, rfl, rfl⟩ := h
    simp [Piece.text, (digitsBetween_eq_some hd).1, bareOpening]

/-- The pieces of a text. -/
def pieces (label : Text) (s : Text) : List Piece :=
  match s with
  | [] => []
  | c :: t =>
    match _h : markerAt label (c :: t) with
    | some (m, rest) => m :: pieces label rest
    | none => .char c :: pieces label t
termination_by s.length
decreasing_by
  · have key := text_of_markerAt _h
    have := List.length_pos_iff.2 key.2
    rw [← key.1, List.length_append]
    omega
  · simp

/-- The pieces make up the text. -/
theorem flatMap_text_pieces (label s : Text) :
    (pieces label s).flatMap (Piece.text label) = s := by
  fun_induction pieces label s with
  | case1 => rfl
  | case2 c t m rest h ih => simp [ih, (text_of_markerAt h).1]
  | case3 c t _ ih => simp [ih, Piece.text]

/-! ## Numbers -/

/-- The number that digits denote. -/
def value (digits : Text) : Nat := digits.foldl (fun n c ↦ 10 * n + (c.toNat - '0'.toNat)) 0

/-- The number of an interpolation from its digits, if it fits in 64 bits. -/
def index? (digits : Text) : Option Nat :=
  if value digits < UInt64.size then some (value digits) else none

/-- The number of the interpolation that a piece stands for. -/
def Piece.index? (p : Piece) : Option Nat := p.digits?.bind Marker.index?

/-- The number of the interpolation if a text is one marker that is a comment. The marker is looked
for like any other, and has to be the whole text. -/
def indexOf? (label s : Text) : Option Nat :=
  match pieces label s with
  | [.comment digits] => index? digits
  | _ => none

/-- Whether a text holds a marker. -/
def occursIn (label s : Text) : Bool := (pieces label s).any (·.digits?.isSome)

/-- The numbers of the interpolations that a text stands for, in order. -/
def indices (label s : Text) : List Nat := (pieces label s).filterMap Piece.index?

/-- A text with the markers replaced that `resolve` knows. The others stay as written. -/
def replaceAll (label : Text) (resolve : Nat → Option Text) (s : Text) : Text :=
  (pieces label s).flatMap fun p ↦ (p.index?.bind resolve).getD (p.text label)

/-! ## Replacing with effects -/

section Effects

variable {m : Type → Type u} [Monad m]

/-- A piece with its marker replaced, if `resolve` knows it when asked for its number. A marker
whose number does not fit is not asked for. -/
def Piece.replaceM (label : Text) (resolve : Nat → m (Option Text)) (p : Piece) : m Text :=
  match p.index? with
  | some i => do return (← resolve i).getD (p.text label)
  | none => return p.text label

/-- A text with the markers replaced that `resolve` knows, where asking can have effects. -/
def replaceAllM (label : Text) (resolve : Nat → m (Option Text)) (s : Text) : m Text := do
  return (← (pieces label s).mapM (Piece.replaceM label resolve)).flatten

end Effects

end EmbeddedCss.Marker
