import EmbeddedCss.Proofs.Marker.Chunking
import EmbeddedCss.Text.Blank

/-! # Texts in which markers are the only comments

A template in whose literals no comment starts gives a stylesheet of this kind. There a marker is
easily told from what is around it: it starts with a slash, and no blank, quote, bracket or other
character that means something to the grammar stands in it. -/

namespace EmbeddedCss.Marker

/-- Legible pieces whose markers are the only comments: no marker is bare, and no comment starts
among the characters. -/
structure Uncommented (label : Text) (ps : List Piece) : Prop extends Legible label ps where
  ne_bare : ∀ p ∈ ps, ∀ digits, p ≠ .bare digits
  noComment : ¬ [Piece.char '/', Piece.char '*'] <:+: ps

/-- A part of such pieces is of the same kind. -/
theorem Uncommented.of_isInfix {label : Text} {ps qs : List Piece} (h : Uncommented label ps)
    (hqs : qs <:+: ps) : Uncommented label qs where
  toLegible := h.toLegible.of_isInfix hqs
  ne_bare p hp := h.ne_bare p (hqs.mem hp)
  noComment hc := h.noComment (hc.trans hqs)

theorem Uncommented.left {label : Text} {ps qs : List Piece} (h : Uncommented label (ps ++ qs)) :
    Uncommented label ps := h.of_isInfix (List.prefix_append _ _).isInfix

theorem Uncommented.right {label : Text} {ps qs : List Piece} (h : Uncommented label (ps ++ qs)) :
    Uncommented label qs := h.of_isInfix (List.suffix_append _ _).isInfix

theorem Uncommented.rest {label : Text} {p : Piece} {ps : List Piece}
    (h : Uncommented label (p :: ps)) : Uncommented label ps :=
  h.of_isInfix (List.suffix_cons p ps).isInfix

/-- The first piece is a character or a marker that is a comment. -/
theorem Uncommented.first {label : Text} {p : Piece} {ps : List Piece}
    (h : Uncommented label (p :: ps)) :
    (∃ c, p = .char c) ∨ ∃ digits, p = .comment digits ∧ IsNumber digits := by
  cases p with
  | char c => exact .inl ⟨c, rfl⟩
  | comment digits => exact .inr ⟨digits, rfl, h.isNumber _ (List.mem_cons_self ..) digits rfl⟩
  | bare digits => exact absurd rfl (h.ne_bare _ (List.mem_cons_self ..) digits)

/-! ## Characters of markers -/

/-- A character that can stand in a marker that is a comment. -/
def isMarkerChar (c : Char) : Bool := c == '/' || c == '*' || c == ':' || isLabelChar c

theorem isMarkerChar_of_mem_text {label digits : Text} (hlabel : Options.isLabel label = true)
    (hd : IsNumber digits) {c : Char} (hc : c ∈ (Piece.comment digits).text label) :
    isMarkerChar c = true := by
  have hc' : c = '/' ∨ c = '*' ∨ c ∈ label ∨ c = ':' ∨ c ∈ digits ∨ c = '*' ∨ c = '/' := by
    simpa [Piece.text, commentOpening] using hc
  rcases hc' with rfl | rfl | hc | rfl | hc | rfl | rfl
  · rfl
  · rfl
  · simp [isMarkerChar, isLabelChar_of_mem hlabel hc]
  · rfl
  · simp [isMarkerChar, isLabelChar, Char.isAlphanum, hd.2 c hc]
  · rfl
  · rfl

/-- Letters and digits lie between two characters of ASCII. -/
theorem toNat_of_isAlphanum {c : Char} (h : c.isAlphanum = true) :
    '*'.toNat ≤ c.toNat ∧ c.toNat ≤ 'z'.toNat := by
  have hbounds : ∀ lo hi : Char, '*' ≤ lo → hi ≤ 'z' → lo ≤ c → c ≤ hi →
      '*'.toNat ≤ c.toNat ∧ c.toNat ≤ 'z'.toNat :=
    fun lo hi h₁ h₂ h₃ h₄ ↦ ⟨le_trans h₁ h₃, le_trans h₄ h₂⟩
  rcases Bool.or_eq_true_iff.1 h with h | h
  · rcases Bool.or_eq_true_iff.1 h with h | h
    · have hupper : 'A' ≤ c ∧ c ≤ 'Z' := of_decide_eq_true h
      exact hbounds 'A' 'Z' (by decide) (by decide) hupper.1 hupper.2
    · obtain ⟨h₁, h₂⟩ := Bool.and_eq_true_iff.1 h
      exact hbounds 'a' 'z' (by decide) (by decide) (of_decide_eq_true h₁) (of_decide_eq_true h₂)
  · obtain ⟨h₁, h₂⟩ := Bool.and_eq_true_iff.1 h
    exact hbounds '0' '9' (by decide) (by decide) (of_decide_eq_true h₁) (of_decide_eq_true h₂)

/-- The characters of markers lie between two characters of ASCII. -/
theorem toNat_of_isMarkerChar {c : Char} (h : isMarkerChar c = true) :
    '*'.toNat ≤ c.toNat ∧ c.toNat ≤ 'z'.toNat := by
  simp only [isMarkerChar, isLabelChar, Bool.or_eq_true, beq_iff_eq] at h
  rcases h with ((rfl | rfl) | rfl) | (h | rfl) | rfl
  · decide
  · decide
  · decide
  · exact toNat_of_isAlphanum h
  · decide
  · decide

/-- No blank stands in a marker. -/
theorem isMarkerChar_of_isBlank {c : Char} (h : Text.isBlank c = true) :
    isMarkerChar c = false := by
  cases hc : isMarkerChar c with
  | false => rfl
  | true =>
    have hbounds : 42 ≤ c.toNat ∧ c.toNat ≤ 122 := toNat_of_isMarkerChar hc
    simp only [Text.isBlank, Bool.or_eq_true, Bool.and_eq_true, decide_eq_true_eq, beq_iff_eq] at h
    omega

/-- A character that is no slash and stands next is a piece. -/
theorem Uncommented.char_of_cons {label t : Text} {c : Char} {ps : List Piece}
    (h : Uncommented label ps) (hc : c ≠ '/') (he : textOf label ps = c :: t) :
    ∃ qs, ps = .char c :: qs ∧ textOf label qs = t := by
  cases ps with
  | nil => simp at he
  | cons p ps =>
    rcases h.first with ⟨d, rfl⟩ | ⟨digits, rfl, -⟩
    · obtain ⟨rfl, ht⟩ := List.cons_eq_cons.1 he
      exact ⟨ps, rfl, ht⟩
    · obtain ⟨rfl, -⟩ := List.cons_eq_cons.1 he
      exact absurd rfl hc

/-! ## Cuts -/

/-- A text is cut between two pieces. -/
def Cut (label : Text) (ps : List Piece) (l r : Text) : Prop :=
  ∃ qs rs, ps = qs ++ rs ∧ textOf label qs = l ∧ textOf label rs = r

theorem cut_nil (label : Text) (ps : List Piece) : Cut label ps [] (textOf label ps) :=
  ⟨[], ps, rfl, rfl, rfl⟩

theorem cut_cons (label : Text) (p : Piece) (ps : List Piece) :
    Cut label (p :: ps) (p.text label) (textOf label ps) :=
  ⟨[p], ps, rfl, by simp, rfl⟩

/-- A cut behind some pieces and a cut in what follows them. -/
theorem Cut.cons {label l r : Text} {ps : List Piece} (p : Piece) (h : Cut label ps l r) :
    Cut label (p :: ps) (p.text label ++ l) r := by
  obtain ⟨qs, rs, rfl, rfl, rfl⟩ := h
  exact ⟨p :: qs, rs, rfl, rfl, rfl⟩

/-- A cut in front of a character that can stand in no marker is between two pieces. -/
theorem Uncommented.cut_of_append {label u v : Text} {c : Char} {ps : List Piece}
    (h : Uncommented label ps) (hc : isMarkerChar c = false) (he : textOf label ps = u ++ c :: v) :
    Cut label ps u (c :: v) := by
  rcases cut_cases he with hcut | ⟨qs, p, rs, x, y, rfl, hxy, hx, hy, rfl⟩
  · exact hcut
  · obtain ⟨d, x, rfl⟩ := List.exists_cons_of_ne_nil hx
    obtain ⟨e, y, rfl⟩ := List.exists_cons_of_ne_nil hy
    -- the character would be one of the marker that is cut
    have hce : c = e := by
      rw [textOf_append, textOf_cons, hxy, List.append_assoc, List.append_assoc] at he
      have htail := List.append_cancel_left (List.append_cancel_left he)
      exact (List.cons_eq_cons.1 htail).1.symm
    rcases h.right.first with ⟨f, rfl⟩ | ⟨digits, rfl, hd⟩
    · simp [Piece.text] at hxy
    · have hmem : e ∈ (Piece.comment digits).text label := by simp [hxy]
      rw [hce, isMarkerChar_of_mem_text h.isLabel hd hmem] at hc
      simp at hc

end EmbeddedCss.Marker
