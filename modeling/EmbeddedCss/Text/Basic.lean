/-! # Text

Source text is a list of Unicode scalar values. Offsets into it count the bytes of its UTF-8
form, so the unit of length is `Text.size`. -/

namespace EmbeddedCss

/-- Source text, as a list of Unicode scalar values. -/
abbrev Text := List Char

namespace Text

/-- The number of bytes that a text takes in UTF-8. -/
def size : Text → Nat
  | [] => 0
  | c :: t => c.utf8Size + size t

@[simp] theorem size_nil : size [] = 0 := rfl

@[simp] theorem size_cons (c : Char) (t : Text) : size (c :: t) = c.utf8Size + size t := rfl

/-- Sizes add up along concatenation. -/
@[simp] theorem size_append (s t : Text) : size (s ++ t) = size s + size t := by
  induction s with
  | nil => simp
  | cons c s ih => simp [ih, Nat.add_assoc]

theorem size_pos {t : Text} (h : t ≠ []) : 0 < size t := by
  cases t with
  | nil => exact absurd rfl h
  | cons c t => exact Nat.add_pos_left c.utf8Size_pos _

/-- The part of a text from byte `n` on. -/
def dropBytes : Nat → Text → Text
  | _, [] => []
  | 0, t => t
  | n + 1, c :: t => dropBytes (n + 1 - c.utf8Size) t

/-- The part of a text in front of byte `n`. -/
def takeBytes : Nat → Text → Text
  | _, [] => []
  | 0, _ => []
  | n + 1, c :: t => c :: takeBytes (n + 1 - c.utf8Size) t

@[simp] theorem dropBytes_zero (t : Text) : dropBytes 0 t = t := by cases t <;> rfl

@[simp] theorem takeBytes_zero (t : Text) : takeBytes 0 t = [] := by cases t <;> rfl

/-- Cutting a text at a byte loses nothing. -/
@[simp] theorem takeBytes_append_dropBytes (n : Nat) (t : Text) :
    takeBytes n t ++ dropBytes n t = t := by
  induction t generalizing n with
  | nil => cases n <;> rfl
  | cons c t ih =>
    cases n with
    | zero => simp
    | succ n => simp [takeBytes, dropBytes, ih]

/-- A cut at the size of a leading part gives back what follows it. -/
@[simp] theorem dropBytes_size_append (s t : Text) : dropBytes (size s) (s ++ t) = t := by
  induction s with
  | nil => simp
  | cons c s ih =>
    obtain ⟨k, hk⟩ : ∃ k, c.utf8Size = k + 1 := ⟨c.utf8Size - 1, by have := c.utf8Size_pos; omega⟩
    have : c.utf8Size + size s = (k + size s) + 1 := by omega
    rw [size_cons, List.cons_append, this, dropBytes, ← this]
    simpa [Nat.add_sub_cancel_left] using ih

/-- What is left of a text after a given start, if it starts so. -/
def dropStart? : (start : Text) → Text → Option Text
  | [], t => some t
  | _ :: _, [] => none
  | c :: start, d :: t => if c = d then dropStart? start t else none

theorem dropStart?_eq_some_iff {start t rest : Text} :
    dropStart? start t = some rest ↔ start ++ rest = t := by
  induction start generalizing t with
  | nil => simp [dropStart?, eq_comm]
  | cons c start ih => cases t <;> simp [dropStart?, ih]

@[simp] theorem dropStart?_append (start rest : Text) :
    dropStart? start (start ++ rest) = some rest := dropStart?_eq_some_iff.2 rfl

/-- Whether `sought` stands somewhere in a text. -/
def occurs (sought : Text) : Text → Bool
  | [] => sought.isEmpty
  | c :: t => sought.isPrefixOf (c :: t) || occurs sought t

/-- The lines of a text. A line ends at a line feed, which takes one carriage return in front of it
along, and a text that ends in a line feed has no empty line after it. -/
def lines : Text → List Text
  | [] => []
  | c :: t =>
    if c = '\n' then [] :: lines t
    else if c = '\r' ∧ t.head? = some '\n' then lines t
    else match lines t with
      | [] => [[c]]
      | l :: ls => (c :: l) :: ls

/-- The decimal digits of a number. -/
def ofNat (n : Nat) : Text := Nat.toDigits 10 n

end Text

end EmbeddedCss
