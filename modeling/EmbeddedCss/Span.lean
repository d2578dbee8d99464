import EmbeddedCss.Text.Basic

/-! # Spans

Half-open ranges of byte offsets, and values that remember the range they were read from. -/

namespace EmbeddedCss

/-- The bytes from `start` up to, and without, `stop`. -/
@[ext]
structure Span where
  /-- The first byte of the range. -/
  start : Nat := 0
  /-- The byte after the range. -/
  stop : Nat := 0
deriving DecidableEq, Repr, Inhabited

namespace Span

/-- The smallest span that covers both. -/
def merge (a b : Span) : Span := ⟨min a.start b.start, max a.stop b.stop⟩

/-- The number of bytes covered; a span that ends before it starts covers none. -/
def length (s : Span) : Nat := s.stop - s.start

/-- Whether no byte is covered. -/
def isEmpty (s : Span) : Bool := s.length == 0

/-- The span moved on by `n` bytes. -/
def shift (s : Span) (n : Nat) : Span := ⟨s.start + n, s.stop + n⟩

/-- Whether a span covers the byte at `offset`. -/
def contains (s : Span) (offset : Nat) : Bool := s.start ≤ offset && offset < s.stop

@[simp] theorem contains_iff (s : Span) (n : Nat) :
    s.contains n = true ↔ s.start ≤ n ∧ n < s.stop := by
  simp [contains]

/-- Moving a span keeps its length. -/
@[simp] theorem length_shift (s : Span) (n : Nat) : (s.shift n).length = s.length := by
  simp only [length, shift]; omega

end Span

/-- The part of a text that a span covers. -/
def Text.slice (t : Text) (s : Span) : Text := takeBytes s.length (dropBytes s.start t)

/-- A value together with the span it was read from. -/
structure Located (α : Type u) where
  /-- The value. -/
  value : α
  /-- Where it was read. -/
  span : Span
deriving DecidableEq, Repr

namespace Located

/-- Change the value and keep its place. -/
def map (f : α → β) (l : Located α) : Located β := ⟨f l.value, l.span⟩

@[simp] theorem value_map (f : α → β) (l : Located α) : (l.map f).value = f l.value := rfl

@[simp] theorem span_map (f : α → β) (l : Located α) : (l.map f).span = l.span := rfl

end Located

end EmbeddedCss
