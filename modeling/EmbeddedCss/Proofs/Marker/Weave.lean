import EmbeddedCss.Proofs.Marker.Label

/-! # Texts woven of characters and markers

A stylesheet that stands for a template is woven of characters and markers. The markers are found
again by looking for them from left to right, since the label stands in no literal text with a colon
behind it. This holds as well for a part of the stylesheet, and for a part that ends inside of a
marker: the fragment is then not taken for a marker, nor does it make one with what stands in front
of it.

The main statement is `Legible.pieces_append`: the pieces of a text are the ones it was woven of. -/

namespace EmbeddedCss.Marker

/-- The text of some pieces. -/
def textOf (label : Text) (ps : List Piece) : Text := ps.flatMap (Piece.text label)

@[simp] theorem textOf_nil (label : Text) : textOf label [] = [] := rfl

@[simp] theorem textOf_cons (label : Text) (p : Piece) (ps : List Piece) :
    textOf label (p :: ps) = p.text label ++ textOf label ps := rfl

@[simp] theorem textOf_append (label : Text) (ps qs : List Piece) :
    textOf label (ps ++ qs) = textOf label ps ++ textOf label qs := List.flatMap_append ..

@[simp] theorem textOf_map_char (label t : Text) : textOf label (t.map .char) = t := by
  induction t with
  | nil => rfl
  | cons c t ih =>
    rw [List.map_cons, textOf_cons, ih]
    rfl

/-- No piece is empty. -/
theorem Piece.text_ne_nil (label : Text) (p : Piece) : p.text label ≠ [] := by
  cases p <;> simp [Piece.text, commentOpening, bareOpening]

theorem textOf_eq_nil_iff {label : Text} {ps : List Piece} : textOf label ps = [] ↔ ps = [] := by
  cases ps with
  | nil => simp
  | cons p ps => simp [p.text_ne_nil label]

/-! ## Digits -/

/-- A text is a number in decimal digits. -/
def IsNumber (digits : Text) : Prop := digits ≠ [] ∧ ∀ c ∈ digits, c.isDigit = true

theorem isNumber_ofNat (n : Nat) : IsNumber (Text.ofNat n) :=
  ⟨Nat.toDigits_ne_nil, fun _ ↦ Text.isDigit_of_mem_ofNat⟩

@[simp] theorem value_ofNat (n : Nat) : value (Text.ofNat n) = n :=
  Nat.ofDigitChars_toDigits (by decide) (by decide)

/-- Two texts that are cut at the first character outside of a class are cut alike. -/
theorem append_cons_inj (p : Char → Bool) {x y a b : Text} {c d : Char}
    (hx : ∀ e ∈ x, p e = true) (hy : ∀ e ∈ y, p e = true) (hc : p c = false) (hd : p d = false)
    (h : x ++ c :: a = y ++ d :: b) : x = y ∧ c = d ∧ a = b := by
  induction x generalizing y with
  | nil =>
    cases y with
    | nil => simpa using h
    | cons e y =>
      obtain ⟨rfl, -⟩ := List.cons_eq_cons.1 h
      simp [hy c (List.mem_cons_self ..)] at hc
  | cons e x ih =>
    cases y with
    | nil =>
      obtain ⟨rfl, -⟩ := List.cons_eq_cons.1 h
      simp [hx e (List.mem_cons_self ..)] at hd
    | cons f y =>
      obtain ⟨rfl, htail⟩ := List.cons_eq_cons.1 h
      obtain ⟨rfl, hcd, hab⟩ := ih (fun e he ↦ hx e (List.mem_cons_of_mem _ he))
        (fun e he ↦ hy e (List.mem_cons_of_mem _ he)) htail
      exact ⟨rfl, hcd, hab⟩

/-- Digits are read between an opening and a closing that starts with no digit. -/
theorem digitsBetween_append {opening digits rest : Text} {c : Char} {closing : Text}
    (hd : IsNumber digits) (hc : c.isDigit = false) :
    digitsBetween opening (c :: closing) (opening ++ digits ++ (c :: closing) ++ rest) =
      some (digits, rest) := by
  have htake : (digits ++ (c :: closing ++ rest)).takeWhile Char.isDigit = digits := by
    rw [List.takeWhile_append_of_pos hd.2]
    simp [hc]
  have hdrop :
      (digits ++ (c :: closing ++ rest)).dropWhile Char.isDigit = c :: closing ++ rest := by
    rw [List.dropWhile_append_of_pos hd.2]
    simp [hc]
  have hne : digits.isEmpty = false := by simpa using hd.1
  rw [List.append_assoc, List.append_assoc, digitsBetween, Text.dropStart?_append]
  simp only [htake, hdrop, hne, Text.dropStart?_append]
  rfl

theorem markerAt_comment {label digits : Text} (rest : Text) (hd : IsNumber digits) :
    markerAt label ((Piece.comment digits).text label ++ rest) = some (.comment digits, rest) := by
  rw [markerAt, Piece.text, digitsBetween_append hd (by decide)]

/-- A bare marker does not open like a comment that is a marker, whatever the label: the first colon
stands at different places. -/
theorem not_isPrefix_commentOpening (label : Text) :
    ¬ bareOpening label <+: commentOpening label := by
  intro h
  have hcolon : ':' ∈ bareOpening label := by simp [bareOpening]
  have hidx := h.idxOf_eq_of_mem hcolon
  have hopening : commentOpening label = '/' :: '*' :: bareOpening label := by
    simp [commentOpening, bareOpening]
  rw [hopening, List.idxOf_cons_ne _ (by decide), List.idxOf_cons_ne _ (by decide)] at hidx
  omega

theorem markerAt_bare {label digits : Text} (rest : Text) (hd : IsNumber digits) :
    markerAt label ((Piece.bare digits).text label ++ rest) = some (.bare digits, rest) := by
  have hnone : digitsBetween (commentOpening label) ['*', '/']
      ((Piece.bare digits).text label ++ rest) = none := by
    cases h : digitsBetween (commentOpening label) ['*', '/']
        ((Piece.bare digits).text label ++ rest) with
    | none => rfl
    | some p =>
      have hbare : bareOpening label <+: (Piece.bare digits).text label ++ rest :=
        ⟨digits ++ [':'] ++ rest, by simp [Piece.text]⟩
      have hcomment : commentOpening label <+: (Piece.bare digits).text label ++ rest :=
        ⟨p.1 ++ ['*', '/'] ++ p.2, by simp [(digitsBetween_eq_some h).1]⟩
      exact absurd (List.prefix_of_prefix_length_le hbare hcomment
        (by simp [bareOpening, commentOpening])) (not_isPrefix_commentOpening label)
  rw [markerAt, hnone]
  simp only [Piece.text, digitsBetween_append hd (show ':'.isDigit = false by decide)]
  rfl

/-- A marker is read at its place, whatever stands behind it. -/
theorem markerAt_text {label : Text} {p : Piece} {digits : Text} (hp : p.digits? = some digits)
    (hd : IsNumber digits) (s : Text) : markerAt label (p.text label ++ s) = some (p, s) := by
  cases p with
  | char c => simp [Piece.digits?] at hp
  | comment digits' =>
    obtain rfl : digits' = digits := by simpa [Piece.digits?] using hp
    exact markerAt_comment s hd
  | bare digits' =>
    obtain rfl : digits' = digits := by simpa [Piece.digits?] using hp
    exact markerAt_bare s hd

/-! ## Labels in a text -/

/-- A text that starts with a slash does not start with characters of labels and a colon. -/
theorem ne_slash {x a b : Text} (hx : ∀ c ∈ x, isLabelChar c = true) :
    x ++ ':' :: a ≠ '/' :: b := by
  intro h
  cases x with
  | nil => simp at h
  | cons c x =>
    obtain ⟨rfl, -⟩ := List.cons_eq_cons.1 h
    exact absurd (hx '/' (List.mem_cons_self ..)) (by decide)

section Labels

variable {label : Text} (hlabel : Options.isLabel label = true)

include hlabel

theorem isLabelChar_of_mem {c : Char} (hc : c ∈ label) : isLabelChar c = true :=
  ((isLabel_iff label).1 hlabel).2 c hc

/-- A label is cut off a text by the colon behind it. -/
theorem eq_label_of_colon {x a b : Text} (hx : ∀ c ∈ x, isLabelChar c = true)
    (h : x ++ ':' :: a = label ++ ':' :: b) : x = label ∧ a = b := by
  obtain ⟨hx, -, hab⟩ := append_cons_inj isLabelChar hx
    (fun _ ↦ isLabelChar_of_mem hlabel) (by decide) (by decide) h
  exact ⟨hx, hab⟩

theorem exists_label_cons : ∃ c l, label = c :: l ∧ isLabelChar c = true := by
  obtain ⟨c, l, rfl⟩ := List.exists_cons_of_ne_nil ((isLabel_iff label).1 hlabel).1
  exact ⟨c, l, rfl, isLabelChar_of_mem hlabel (List.mem_cons_self ..)⟩

end Labels

/-- Whatever is read as a marker has a number. -/
theorem isNumber_of_markerAt {label s rest : Text} {m : Piece}
    (h : markerAt label s = some (m, rest)) :
    ∃ digits, m.digits? = some digits ∧ IsNumber digits := by
  unfold markerAt at h
  split at h
  · rename_i digits r hd
    obtain ⟨rfl, -⟩ : Piece.comment digits = m ∧ r = rest := by simpa using h
    exact ⟨digits, rfl, (digitsBetween_eq_some hd).2⟩
  · obtain ⟨⟨digits, r⟩, hd, he⟩ := Option.map_eq_some_iff.1 h
    obtain ⟨rfl, -⟩ : Piece.bare digits = m ∧ r = rest := by simpa using he
    exact ⟨digits, rfl, (digitsBetween_eq_some hd).2⟩

/-! ## Legible pieces -/

/-- Pieces that can be told apart in their text: the markers have numbers, and the label does not
stand among the characters with a colon behind it. -/
structure Legible (label : Text) (ps : List Piece) : Prop where
  isLabel : Options.isLabel label = true
  isNumber : ∀ p ∈ ps, ∀ digits ∈ p.digits?, IsNumber digits
  fresh : ¬ (label ++ [':']).map Piece.char <:+: ps

/-- A part of legible pieces is legible. -/
theorem Legible.of_isInfix {label : Text} {ps qs : List Piece} (h : Legible label ps)
    (hqs : qs <:+: ps) : Legible label qs where
  isLabel := h.isLabel
  isNumber p hp := h.isNumber p (hqs.mem hp)
  fresh hf := h.fresh (hf.trans hqs)

theorem Legible.tail {label : Text} {p : Piece} {ps : List Piece} (h : Legible label (p :: ps)) :
    Legible label ps := h.of_isInfix (List.infix_cons (List.infix_refl ps))

/-- The front of a marker, perhaps nothing of it but not all of it. -/
def Fragment (label u : Text) : Prop :=
  ∃ (p : Piece) (digits v : Text), p.digits? = some digits ∧ IsNumber digits ∧ v ≠ [] ∧
    p.text label = u ++ v

/-- Nothing is a fragment of any marker. -/
theorem fragment_nil (label : Text) : Fragment label [] :=
  ⟨.bare ['0'], ['0'], (Piece.bare ['0']).text label, rfl, by simp [IsNumber],
    Piece.text_ne_nil label _, rfl⟩

/-- Where characters of labels and a colon stand in front of a text that ends in a fragment, they
are characters among the pieces, or they end in the label of a bare marker or of the fragment. -/
theorem Legible.label_cases {label u w x : Text} {ps : List Piece} (h : Legible label ps)
    (hu : Fragment label u) (hx : ∀ c ∈ x, isLabelChar c = true)
    (he : textOf label ps ++ u = x ++ ':' :: w) :
    (x ++ [':']).map .char <+: ps ∨
      (∃ y digits qs, ps = y.map .char ++ .bare digits :: qs ∧ x = y ++ label) ∨
        ∃ y, ps = y.map .char ∧ x = y ++ label := by
  induction ps generalizing x with
  | nil =>
    obtain ⟨p, digits, v, hp, hd, hv, hpu⟩ := hu
    rw [textOf_nil, List.nil_append] at he
    subst he
    cases p with
    | char c => simp [Piece.digits?] at hp
    | comment digits =>
      refine absurd hpu.symm ?_
      rw [List.append_assoc, List.cons_append]
      exact ne_slash hx
    | bare digits =>
      have hlabel : x ++ ':' :: (w ++ v) = label ++ ':' :: (digits ++ [':']) := by
        simpa [Piece.text, bareOpening] using hpu.symm
      exact .inr (.inr ⟨[], rfl, (eq_label_of_colon h.isLabel hx hlabel).1⟩)
  | cons p ps ih =>
    cases p with
    | char c =>
      cases x with
      | nil =>
        obtain ⟨rfl, -⟩ : c = ':' ∧ textOf label ps ++ u = w := by simpa [Piece.text] using he
        exact .inl ⟨ps, rfl⟩
      | cons d x =>
        obtain ⟨rfl, htail⟩ : c = d ∧ textOf label ps ++ u = x ++ ':' :: w := by
          simpa [Piece.text] using he
        have hx' : ∀ c ∈ x, isLabelChar c = true := fun e he ↦ hx e (List.mem_cons_of_mem _ he)
        rcases ih h.tail hx' htail with ⟨qs, hqs⟩ | ⟨y, digits, qs, rfl, rfl⟩ | ⟨y, rfl, rfl⟩
        · exact .inl ⟨qs, by rw [← hqs]; rfl⟩
        · exact .inr (.inl ⟨c :: y, digits, qs, rfl, rfl⟩)
        · exact .inr (.inr ⟨c :: y, rfl, rfl⟩)
    | comment digits =>
      refine absurd he.symm ?_
      rw [textOf_cons, List.append_assoc]
      exact ne_slash hx
    | bare digits =>
      have hlabel : x ++ ':' :: w = label ++ ':' :: (digits ++ ':' :: (textOf label ps ++ u)) := by
        simpa [Piece.text, bareOpening] using he.symm
      exact .inr (.inl ⟨[], digits, ps, rfl, (eq_label_of_colon h.isLabel hx hlabel).1⟩)

/-- The label and a colon stand in front of a text only where a bare marker stands, or a fragment of
one; so digits and another colon follow, unless the fragment ends before. -/
theorem Legible.label_start {label u w : Text} {ps : List Piece} (h : Legible label ps)
    (hu : Fragment label u) (he : textOf label ps ++ u = label ++ ':' :: w) :
    ((∃ digits qs, ps = .bare digits :: qs) ∨ ps = []) ∧
      ∃ digits v t, IsNumber digits ∧ w ++ v = digits ++ ':' :: t := by
  rcases h.label_cases hu (fun _ ↦ isLabelChar_of_mem h.isLabel) he with
    hfresh | ⟨y, digits, qs, rfl, hy⟩ | ⟨y, rfl, hy⟩
  · exact absurd hfresh.isInfix h.fresh
  · obtain rfl : y = [] := by simpa using hy
    refine ⟨.inl ⟨digits, qs, rfl⟩, digits, [], textOf label qs ++ u,
      h.isNumber _ (List.mem_cons_self ..) digits rfl, ?_⟩
    have hw : digits ++ ':' :: (textOf label qs ++ u) = w := by
      simpa [Piece.text, bareOpening] using he
    rw [List.append_nil, hw]
  · obtain rfl : y = [] := by simpa using hy
    refine ⟨.inr rfl, ?_⟩
    obtain ⟨p, digits, v, hp, hd, -, hpu⟩ := hu
    obtain rfl : u = label ++ ':' :: w := by simpa using he
    cases p with
    | char c => simp [Piece.digits?] at hp
    | comment digits =>
      refine absurd hpu.symm ?_
      rw [List.append_assoc, List.cons_append]
      exact ne_slash fun _ ↦ isLabelChar_of_mem h.isLabel
    | bare digits' =>
      obtain rfl : digits' = digits := by simpa [Piece.digits?] using hp
      refine ⟨digits', v, [], hd, ?_⟩
      have hw : digits' ++ [':'] = w ++ v := by simpa [Piece.text, bareOpening] using hpu
      exact hw.symm

/-- No piece and no fragment starts with a star, except for the star itself. -/
theorem Legible.star_start {label u w : Text} {ps : List Piece} (h : Legible label ps)
    (hu : Fragment label u) (he : textOf label ps ++ u = '*' :: w) :
    ∃ qs, ps = .char '*' :: qs ∧ textOf label qs ++ u = w := by
  have hstart : ∀ (p : Piece) (digits t : Text), p.digits? = some digits →
      p.text label ≠ '*' :: t := by
    intro p digits t hp ht
    cases p with
    | char c => simp [Piece.digits?] at hp
    | comment digits => simp [Piece.text, commentOpening] at ht
    | bare digits =>
      obtain ⟨c, l, rfl, hc⟩ := exists_label_cons h.isLabel
      obtain ⟨rfl, -⟩ := List.cons_eq_cons.1 ht
      exact absurd hc (by decide)
  cases ps with
  | nil =>
    obtain ⟨p, digits, v, hp, -, -, hpu⟩ := hu
    obtain rfl : u = '*' :: w := by simpa using he
    exact absurd hpu (hstart p digits _ hp)
  | cons p ps =>
    cases hp : p.digits? with
    | none =>
      cases p with
      | char c =>
        obtain ⟨rfl, hw⟩ : c = '*' ∧ textOf label ps ++ u = w := by simpa [Piece.text] using he
        exact ⟨ps, rfl, hw⟩
      | comment digits => simp [Piece.digits?] at hp
      | bare digits => simp [Piece.digits?] at hp
    | some digits =>
      obtain ⟨c, t, ht⟩ := List.exists_cons_of_ne_nil (p.text_ne_nil label)
      rw [textOf_cons, ht] at he
      obtain ⟨rfl, -⟩ := List.cons_eq_cons.1 he
      exact absurd ht (hstart p digits t hp)

/-- At a character no marker is read. -/
theorem Legible.markerAt_char {label u : Text} {c : Char} {ps : List Piece}
    (h : Legible label (.char c :: ps)) (hu : Fragment label u) :
    markerAt label (c :: (textOf label ps ++ u)) = none := by
  unfold markerAt
  split
  · -- a marker that is a comment: its label would be that of a bare marker, which has no star
    rename_i digits rest hd
    obtain ⟨hs, hne, hdigits⟩ := digitsBetween_eq_some hd
    obtain ⟨rfl, hstar⟩ : c = '/' ∧ textOf label ps ++ u =
        '*' :: (label ++ ':' :: (digits ++ '*' :: '/' :: rest)) := by
      simpa [commentOpening] using hs
    obtain ⟨qs, rfl, hqs⟩ := h.tail.star_start hu hstar
    obtain ⟨-, digits', v, t, hd', hw⟩ := h.tail.tail.label_start hu hqs
    rw [List.append_assoc, List.cons_append] at hw
    obtain ⟨-, hcolon, -⟩ := append_cons_inj Char.isDigit hdigits hd'.2 (by decide) (by decide) hw
    simp at hcolon
  · -- a bare marker: it would start at a piece that is no character
    rw [Option.map_eq_none_iff]
    cases hd : digitsBetween (bareOpening label) [':'] (c :: (textOf label ps ++ u)) with
    | none => rfl
    | some p =>
      obtain ⟨hs, -, -⟩ := digitsBetween_eq_some hd
      have hlabel : textOf label (.char c :: ps) ++ u =
          label ++ ':' :: (p.1 ++ ':' :: p.2) := by
        simpa [Piece.text, bareOpening] using hs
      rcases (h.label_start hu hlabel).1 with ⟨digits, qs, hqs⟩ | hqs
      · simp at hqs
      · simp at hqs

/-! ## Pieces of a woven text -/

theorem pieces_of_markerAt {label s rest : Text} {m : Piece}
    (h : markerAt label s = some (m, rest)) : pieces label s = m :: pieces label rest := by
  cases s with
  | nil =>
    have hm := (text_of_markerAt h).1
    exact absurd (List.append_eq_nil_iff.1 hm).1 (m.text_ne_nil label)
  | cons c t =>
    rw [pieces]
    split
    · rename_i m' rest' h'
      rw [h'] at h
      obtain ⟨rfl, rfl⟩ : m' = m ∧ rest' = rest := by simpa using h
      rfl
    · rename_i h'
      simp [h'] at h

theorem pieces_cons_of_none {label t : Text} {c : Char} (h : markerAt label (c :: t) = none) :
    pieces label (c :: t) = .char c :: pieces label t := by
  rw [pieces]
  split
  · rename_i h'
    simp [h] at h'
  · rfl

/-- The pieces of a text that is woven of legible pieces, and of a fragment behind them, are these
pieces, and those of the fragment. -/
theorem Legible.pieces_append {label u : Text} {ps : List Piece} (h : Legible label ps)
    (hu : Fragment label u) :
    pieces label (textOf label ps ++ u) = ps ++ pieces label u := by
  induction ps with
  | nil => rfl
  | cons p ps ih =>
    cases hp : p.digits? with
    | some digits =>
      have hd := h.isNumber p (List.mem_cons_self ..) digits hp
      rw [textOf_cons, List.append_assoc, pieces_of_markerAt (markerAt_text hp hd _),
        ih h.tail]
      rfl
    | none =>
      cases p with
      | char c =>
        change pieces label (c :: (textOf label ps ++ u)) = _
        rw [pieces_cons_of_none (h.markerAt_char hu), ih h.tail]
        rfl
      | comment digits => simp [Piece.digits?] at hp
      | bare digits => simp [Piece.digits?] at hp

/-- Legible pieces are found again in their text. -/
theorem Legible.pieces_textOf {label : Text} {ps : List Piece} (h : Legible label ps) :
    pieces label (textOf label ps) = ps := by
  have hp := h.pieces_append (fragment_nil label)
  have hnil : pieces label [] = [] := by rw [pieces]
  rwa [List.append_nil, hnil, List.append_nil] at hp

/-- A fragment is not taken for a marker. -/
theorem Fragment.markerAt_eq_none {label u : Text} (hu : Fragment label u) :
    markerAt label u = none := by
  obtain ⟨p, digits, v, hp, hd, hv, hpu⟩ := hu
  cases hm : markerAt label u with
  | none => rfl
  | some r =>
    -- the whole marker is read at the front of itself, and so is what was read off the fragment
    obtain ⟨digits', hm', hd'⟩ := isNumber_of_markerAt hm
    have hself : markerAt label (p.text label ++ []) = some (p, []) := markerAt_text hp hd []
    rw [List.append_nil, hpu, ← (text_of_markerAt hm).1, List.append_assoc,
      markerAt_text hm' hd'] at hself
    obtain ⟨-, hrest⟩ : r.1 = p ∧ r.2 ++ v = [] := by simpa using hself
    exact absurd (List.append_eq_nil_iff.1 hrest).2 hv

end EmbeddedCss.Marker
