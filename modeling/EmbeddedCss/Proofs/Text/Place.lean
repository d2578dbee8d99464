import EmbeddedCss.Span

/-! # Places in a text

What a text holds at a byte offset. Offsets and spans are numbers, and most of what is shown about
them is that they lead to a certain part of a text. A part is found again by the span that it takes,
and its bytes are those of the text from its offset on. -/

namespace EmbeddedCss.Text

/-- `s` is what a text holds from a byte offset on. -/
def StandsAt (t : Text) (offset : Nat) (s : Text) : Prop := ∃ u, t = u ++ s ∧ size u = offset

theorem standsAt_zero (t : Text) : StandsAt t 0 t := ⟨[], rfl, rfl⟩

/-- Behind a part of the text stands what follows it. -/
theorem StandsAt.advance {t s₁ s₂ : Text} {offset : Nat} (h : StandsAt t offset (s₁ ++ s₂)) :
    StandsAt t (offset + size s₁) s₂ := by
  obtain ⟨u, rfl, rfl⟩ := h
  exact ⟨u ++ s₁, by rw [List.append_assoc], size_append u s₁⟩

/-- What stands in a text stands at the end of every longer text that ends with it. -/
theorem StandsAt.trans {t s s' : Text} {m n : Nat} (h : StandsAt t m s) (h' : StandsAt s n s') :
    StandsAt t (m + n) s' := by
  obtain ⟨u, rfl, rfl⟩ := h
  obtain ⟨v, rfl, rfl⟩ := h'
  exact ⟨u ++ v, by rw [List.append_assoc], size_append u v⟩

theorem StandsAt.append {t s : Text} {offset : Nat} (h : StandsAt t offset s) (r : Text) :
    StandsAt (t ++ r) offset (s ++ r) := by
  obtain ⟨u, rfl, rfl⟩ := h
  exact ⟨u, by rw [List.append_assoc], rfl⟩

theorem StandsAt.dropBytes_eq {t s : Text} {offset : Nat} (h : StandsAt t offset s) :
    dropBytes offset t = s := by
  obtain ⟨u, rfl, rfl⟩ := h
  exact dropBytes_size_append u s

/-- A cut at the size of a leading part gives back that part. -/
@[simp] theorem takeBytes_size_append (s t : Text) : takeBytes (size s) (s ++ t) = s := by
  have h := takeBytes_append_dropBytes (size s) (s ++ t)
  rw [dropBytes_size_append] at h
  exact List.append_cancel_right h

/-- Parts of the same size at the start of a text are equal. -/
theorem eq_of_append_eq_append {s t u v : Text} (h : s ++ u = t ++ v)
    (hsize : size s = size t) : s = t := by
  have htake := congrArg (takeBytes (size s)) h
  rwa [takeBytes_size_append, hsize, takeBytes_size_append] at htake

/-- The span that a part takes gives back that part. -/
theorem StandsAt.slice_eq {t l r : Text} {offset : Nat} (h : StandsAt t offset (l ++ r)) :
    slice t ⟨offset, offset + size l⟩ = l := by
  rw [slice, h.dropBytes_eq, Span.length, Nat.add_sub_cancel_left, takeBytes_size_append]

theorem StandsAt.unique {t s s' : Text} {offset : Nat} (h : StandsAt t offset s)
    (h' : StandsAt t offset s') : s = s' := h.dropBytes_eq.symm.trans h'.dropBytes_eq

theorem StandsAt.size_eq {t s : Text} {offset : Nat} (h : StandsAt t offset s) :
    size t = offset + size s := by
  obtain ⟨u, rfl, rfl⟩ := h
  exact size_append u s

/-- The rest of what stands at an offset stands behind it. -/
theorem StandsAt.offset_eq {t l r : Text} {m n : Nat} (h : StandsAt t m (l ++ r))
    (h' : StandsAt t n r) : n = m + size l := by
  have hsize := h.size_eq
  rw [h'.size_eq, size_append] at hsize
  omega

/-- A character that stands within a part of a text is a character of that part. -/
theorem StandsAt.exists_split {t l r s : Text} {c : Char} {m n : Nat}
    (h : StandsAt t m (l ++ r)) (hc : StandsAt t n (c :: s)) (hle : m ≤ n)
    (hlt : n < m + size l) : ∃ l₁ l₂, l = l₁ ++ c :: l₂ ∧ n = m + size l₁ := by
  obtain ⟨u, rfl, rfl⟩ := h
  obtain ⟨v, hv, rfl⟩ := hc
  obtain ⟨a, rfl, ha⟩ : ∃ a, v = u ++ a ∧ l ++ r = a ++ c :: s := by
    rcases List.append_eq_append_iff.1 hv with h | ⟨b, rfl, hb⟩
    · exact h
    · cases b with
      | nil => exact ⟨[], by simp, by simpa using hb.symm⟩
      | cons d b =>
        have := d.utf8Size_pos
        rw [size_append, size_cons] at hle
        omega
  rw [size_append] at hlt ⊢
  rcases List.append_eq_append_iff.1 ha with ⟨b, rfl, -⟩ | ⟨b, rfl, hb⟩
  · rw [size_append] at hlt
    omega
  · cases b with
    | nil =>
      rw [List.append_nil] at hlt
      omega
    | cons d b =>
      obtain ⟨rfl, -⟩ := List.cons.inj hb
      exact ⟨a, b, rfl, rfl⟩

/-! ## Bytes -/

/-- The bytes of a text in UTF-8. -/
def bytes (t : Text) : List UInt8 := t.flatMap String.utf8EncodeChar

@[simp] theorem bytes_append (s t : Text) : bytes (s ++ t) = bytes s ++ bytes t :=
  List.flatMap_append ..

/-- The size of a text is the number of its bytes. -/
@[simp] theorem length_bytes (t : Text) : (bytes t).length = size t := by
  induction t with
  | nil => rfl
  | cons c t ih =>
    change (String.utf8EncodeChar c ++ bytes t).length = _
    rw [List.length_append, ih, String.length_utf8EncodeChar, size_cons]

/-- The bytes of a part are those of the text from its offset on. -/
theorem StandsAt.getElem?_bytes {t l r : Text} {offset : Nat} (h : StandsAt t offset (l ++ r))
    {j : Nat} (hj : j < size l) : (bytes t)[offset + j]? = (bytes l)[j]? := by
  obtain ⟨u, rfl, rfl⟩ := h
  rw [bytes_append, List.getElem?_append_right (by simp), length_bytes, Nat.add_sub_cancel_left,
    bytes_append, List.getElem?_append_left (by simpa using hj)]

end EmbeddedCss.Text
