import EmbeddedCss.Marker.Table
import EmbeddedCss.Proofs.Marker.Weave

/-! # Chunks of a woven text

Markers are replaced chunk by chunk. That gives the same text as replacing them all at once as long
as no chunk ends inside a marker. Here the chunks of a woven text are sorted into those that are cut
between pieces and those that cut a marker, and both kinds are shown to be told apart by what they
are restored to: a marker that is cut stays as it is. -/

namespace EmbeddedCss.Marker

/-! ## Chunks that are cut between pieces -/

/-- Each chunk is the text of some of the pieces. -/
def Chunking (label : Text) (ps : List Piece) (chunks : List Text) : Prop :=
  ∃ pss : List (List Piece), pss.flatten = ps ∧ pss.map (textOf label) = chunks

theorem chunking_nil (label : Text) : Chunking label [] [] := ⟨[], rfl, rfl⟩

theorem chunking_singleton (label : Text) (ps : List Piece) :
    Chunking label ps [textOf label ps] := ⟨[ps], by simp, rfl⟩

theorem Chunking.append {label : Text} {ps qs : List Piece} {chunks chunks' : List Text}
    (h : Chunking label ps chunks) (h' : Chunking label qs chunks') :
    Chunking label (ps ++ qs) (chunks ++ chunks') := by
  obtain ⟨pss, rfl, rfl⟩ := h
  obtain ⟨qss, rfl, rfl⟩ := h'
  exact ⟨pss ++ qss, by simp, by simp⟩

theorem textOf_flatten (label : Text) (pss : List (List Piece)) :
    textOf label pss.flatten = (pss.map (textOf label)).flatten := by
  induction pss with
  | nil => rfl
  | cons ps pss ih => rw [List.flatten_cons, textOf_append, ih, List.map_cons, List.flatten_cons]

/-- A text that is cut in two is cut between two pieces or inside of one. -/
theorem cut_cases {label u v : Text} {ps : List Piece} (h : textOf label ps = u ++ v) :
    (∃ qs rs, ps = qs ++ rs ∧ textOf label qs = u ∧ textOf label rs = v) ∨
      ∃ qs p rs x y, ps = qs ++ p :: rs ∧ p.text label = x ++ y ∧ x ≠ [] ∧ y ≠ [] ∧
        u = textOf label qs ++ x := by
  induction ps generalizing u with
  | nil =>
    obtain ⟨rfl, rfl⟩ := List.append_eq_nil_iff.1 h.symm
    exact .inl ⟨[], [], rfl, rfl, rfl⟩
  | cons p ps ih =>
    rw [textOf_cons] at h
    rcases List.append_eq_append_iff.1 h with ⟨w, rfl, hw⟩ | ⟨w, hp, rfl⟩
    · -- the cut is behind the first piece
      rcases ih hw with ⟨qs, rs, rfl, rfl, rfl⟩ | ⟨qs, q, rs, x, y, rfl, hxy, hx, hy, rfl⟩
      · exact .inl ⟨p :: qs, rs, rfl, rfl, rfl⟩
      · exact .inr ⟨p :: qs, q, rs, x, y, rfl, hxy, hx, hy, by simp⟩
    · -- the cut is at an end of the first piece, or inside of it
      by_cases hu : u = []
      · subst hu
        exact .inl ⟨[], p :: ps, rfl, rfl, by rw [textOf_cons, hp]; rfl⟩
      · by_cases hw : w = []
        · subst hw
          exact .inl ⟨[p], ps, rfl, by simpa using hp, rfl⟩
        · exact .inr ⟨[], p, ps, u, w, rfl, hp, hu, hw, rfl⟩

/-- Some chunks of a woven text are cut between its pieces, or there is a first one that ends inside
of a piece. -/
theorem chunking_or_cut {label : Text} {ps : List Piece} {chunks : List Text}
    (h : textOf label ps = chunks.flatten) :
    Chunking label ps chunks ∨
      ∃ (pss : List (List Piece)) (qs : List Piece) (p : Piece) (rs : List Piece) (x y : Text)
          (rest : List Text), chunks = pss.map (textOf label) ++ (textOf label qs ++ x) :: rest ∧
        ps = pss.flatten ++ qs ++ p :: rs ∧ p.text label = x ++ y ∧ x ≠ [] ∧ y ≠ [] := by
  induction chunks generalizing ps with
  | nil =>
    obtain rfl := textOf_eq_nil_iff.1 h
    exact .inl (chunking_nil label)
  | cons chunk chunks ih =>
    rcases cut_cases (h.trans List.flatten_cons) with
      ⟨qs, rs, rfl, rfl, hrs⟩ | ⟨qs, p, rs, x, y, rfl, hxy, hx, hy, rfl⟩
    · rcases ih hrs with hc | ⟨pss, qs', p, rs', x, y, rest, rfl, rfl, hxy, hx, hy⟩
      · exact .inl ((chunking_singleton label qs).append hc)
      · exact .inr ⟨qs :: pss, qs', p, rs', x, y, rest, rfl, by simp, hxy, hx, hy⟩
    · exact .inr ⟨[], qs, p, rs, x, y, chunks, rfl, rfl, hxy, hx, hy⟩

/-! ## Where the markers stand -/

/-- The spans of the markers among some pieces that start at `offset`. -/
def markerSpans (label : Text) (offset : Nat) : List Piece → List Span
  | [] => []
  | p :: ps =>
    (if p.digits?.isSome then [⟨offset, offset + Text.size (p.text label)⟩] else []) ++
      markerSpans label (offset + Text.size (p.text label)) ps

theorem mem_markerSpans {label : Text} {offset : Nat} {ps : List Piece} {s : Span} :
    s ∈ markerSpans label offset ps ↔ ∃ qs p rs, ps = qs ++ p :: rs ∧ p.digits?.isSome = true ∧
      s = ⟨offset + Text.size (textOf label qs),
        offset + Text.size (textOf label qs) + Text.size (p.text label)⟩ := by
  induction ps generalizing offset with
  | nil => simp [markerSpans]
  | cons p ps ih =>
    rw [markerSpans, List.mem_append, ih]
    constructor
    · rintro (h | ⟨qs, q, rs, rfl, hq, rfl⟩)
      · split at h
        · rename_i hp
          obtain rfl := List.mem_singleton.1 h
          exact ⟨[], p, ps, rfl, hp, rfl⟩
        · simp at h
      · exact ⟨p :: qs, q, rs, rfl, hq, by simp [Nat.add_assoc]⟩
    · rintro ⟨qs, q, rs, he, hq, rfl⟩
      cases qs with
      | nil =>
        obtain ⟨rfl, rfl⟩ := List.cons_eq_cons.1 he
        exact .inl (by simp [hq])
      | cons q' qs =>
        obtain ⟨rfl, rfl⟩ := List.cons_eq_cons.1 he
        exact .inr ⟨qs, q, rs, rfl, hq, by simp [Nat.add_assoc]⟩

/-- A boundary between the first chunks `a` and the others falls inside a span. -/
def CutsSpan (a : List Text) (s : Span) : Prop :=
  s.start < Text.size a.flatten ∧ Text.size a.flatten < s.stop

instance (a : List Text) (s : Span) : Decidable (CutsSpan a s) := inferInstanceAs (Decidable (_ ∧ _))

/-- Chunks that are cut between pieces cut no marker. -/
theorem Chunking.not_cutsSpan {label : Text} {ps : List Piece} {a b : List Text}
    (h : Chunking label ps (a ++ b)) {s : Span} (hs : s ∈ markerSpans label 0 ps) :
    ¬ CutsSpan a s := by
  obtain ⟨pss, rfl, hpss⟩ := h
  obtain ⟨as, bs, rfl, rfl, rfl⟩ := List.map_eq_append_iff.1 hpss
  obtain ⟨qs, p, rs, he, -, rfl⟩ := mem_markerSpans.1 hs
  rw [List.flatten_append] at he
  rw [CutsSpan, ← textOf_flatten]
  rintro ⟨h₁, h₂⟩
  -- the pieces of `a` end before the marker, or they hold it
  rcases List.append_eq_append_iff.1 he with ⟨t, rfl, -⟩ | ⟨t, ht, hp⟩
  · simp only [textOf_append, Text.size_append] at h₁
    omega
  · rw [ht] at h₁ h₂
    cases t with
    | nil => simp at h₁
    | cons q t =>
      obtain ⟨rfl, -⟩ := List.cons_eq_cons.1 hp
      simp only [textOf_append, textOf_cons, Text.size_append] at h₂
      omega

/-- A piece that can be cut is a marker. -/
theorem Piece.isSome_digits?_of_cut {label x y : Text} {p : Piece} (h : p.text label = x ++ y)
    (hx : x ≠ []) (hy : y ≠ []) : p.digits?.isSome = true := by
  cases p with
  | char c =>
    obtain ⟨d, x, rfl⟩ := List.exists_cons_of_ne_nil hx
    obtain ⟨e, y, rfl⟩ := List.exists_cons_of_ne_nil hy
    simp [Piece.text] at h
  | comment digits => rfl
  | bare digits => rfl

/-- The chunks of a woven text are cut between its pieces exactly if no boundary falls inside a
marker. -/
theorem chunking_iff_not_cutsSpan {label : Text} {ps : List Piece} {chunks : List Text}
    (h : textOf label ps = chunks.flatten) :
    Chunking label ps chunks ↔
      ∀ a b, chunks = a ++ b → ∀ s ∈ markerSpans label 0 ps, ¬ CutsSpan a s := by
  constructor
  · rintro hc a b rfl s hs
    exact hc.not_cutsSpan hs
  · intro hcuts
    rcases chunking_or_cut h with hc | ⟨pss, qs, p, rs, x, y, rest, rfl, rfl, hxy, hx, hy⟩
    · exact hc
    · let s : Span := ⟨0 + Text.size (textOf label (pss.flatten ++ qs)),
        0 + Text.size (textOf label (pss.flatten ++ qs)) + Text.size (p.text label)⟩
      have hmem : s ∈ markerSpans label 0 (pss.flatten ++ qs ++ p :: rs) :=
        mem_markerSpans.2 ⟨_, p, rs, rfl, p.isSome_digits?_of_cut hxy hx hy, rfl⟩
      refine absurd ?_ (hcuts (pss.map (textOf label) ++ [textOf label qs ++ x]) rest (by simp) s
        hmem)
      have hpx := Text.size_pos hx
      have hpy := Text.size_pos hy
      simp only [s, CutsSpan, List.flatten_append, List.flatten_singleton, ← textOf_flatten,
        textOf_append, Text.size_append, hxy]
      omega

/-! ## Restoring -/

/-- The text of some pieces with the markers replaced that `resolve` knows. -/
def restoredText (label : Text) (resolve : Nat → Option Text) (ps : List Piece) : Text :=
  ps.flatMap fun p ↦ (p.index?.bind resolve).getD (p.text label)

@[simp] theorem restoredText_append (label : Text) (resolve : Nat → Option Text)
    (ps qs : List Piece) : restoredText label resolve (ps ++ qs) =
      restoredText label resolve ps ++ restoredText label resolve qs := List.flatMap_append ..

@[simp] theorem restoredText_cons (label : Text) (resolve : Nat → Option Text) (p : Piece)
    (ps : List Piece) : restoredText label resolve (p :: ps) =
      (p.index?.bind resolve).getD (p.text label) ++ restoredText label resolve ps := rfl

@[simp] theorem restoredText_map_char (label : Text) (resolve : Nat → Option Text) (t : Text) :
    restoredText label resolve (t.map .char) = t := by
  induction t with
  | nil => rfl
  | cons c t ih =>
    rw [List.map_cons, restoredText_cons, ih]
    rfl

/-- The pieces of a text are found again in chunks that are cut between them. -/
theorem Chunking.flatMap_pieces {label : Text} {ps : List Piece} {chunks : List Text}
    (h : Chunking label ps chunks) (hps : Legible label ps) :
    chunks.flatMap (pieces label) = ps := by
  obtain ⟨pss, rfl, rfl⟩ := h
  induction pss with
  | nil => rfl
  | cons ps pss ih =>
    rw [List.flatten_cons] at hps
    rw [List.map_cons, List.flatMap_cons, ih (hps.of_isInfix (List.suffix_append _ _).isInfix),
      (hps.of_isInfix (List.prefix_append _ _).isInfix).pieces_textOf, List.flatten_cons]

/-- Chunks that are cut between pieces are restored piece by piece. -/
theorem Chunking.flatten_replaceAll {label : Text} {ps : List Piece} {chunks : List Text}
    (h : Chunking label ps chunks) (hps : Legible label ps) (resolve : Nat → Option Text) :
    (chunks.map (replaceAll label resolve)).flatten = restoredText label resolve ps := by
  rw [← List.flatMap_def, ← h.flatMap_pieces hps, restoredText, List.flatMap_assoc]
  rfl

/-- Chunks that are cut between pieces hold the numbers of the pieces, in order. -/
theorem Chunking.flatMap_indices {label : Text} {ps : List Piece} {chunks : List Text}
    (h : Chunking label ps chunks) (hps : Legible label ps) :
    chunks.flatMap (indices label) = ps.filterMap Piece.index? := by
  rw [← h.flatMap_pieces hps, List.filterMap_flatMap]
  rfl

/-- A chunk that ends inside a marker keeps the front of the marker as it is. -/
theorem Legible.replaceAll_fragment {label x : Text} {c : Char} {ps : List Piece}
    (hps : Legible label ps) (hx : Fragment label (c :: x)) (resolve : Nat → Option Text) :
    ∃ t, replaceAll label resolve (textOf label ps ++ c :: x) =
      restoredText label resolve ps ++ c :: t := by
  refine ⟨replaceAll label resolve x, ?_⟩
  rw [replaceAll, hps.pieces_append hx, List.flatMap_append,
    pieces_cons_of_none (hx.markerAt_eq_none)]
  rfl

/-- No marker starts with a dollar sign. -/
theorem ne_dollar_of_text {label t : Text} {c : Char} {p : Piece} {digits : Text}
    (hlabel : Options.isLabel label = true) (hp : p.digits? = some digits)
    (ht : p.text label = c :: t) : c ≠ '$' := by
  rintro rfl
  cases p with
  | char c => simp [Piece.digits?] at hp
  | comment digits => simp [Piece.text, commentOpening] at ht
  | bare digits =>
    obtain ⟨c, l, rfl, hc⟩ := exists_label_cons hlabel
    obtain ⟨rfl, -⟩ := List.cons_eq_cons.1 ht
    exact absurd hc (by decide)

/-- If every marker stands for a text that starts with a dollar sign, then only chunks that are cut
between pieces are restored piece by piece: the first marker that is cut still stands where the text
should be that it stands for. -/
theorem Legible.chunking_of_flatten_replaceAll {label : Text} {ps : List Piece}
    {chunks : List Text} {resolve : Nat → Option Text} (hps : Legible label ps)
    (hresolve : ∀ p ∈ ps, p.digits?.isSome = true → ∃ t, p.index?.bind resolve = some ('$' :: t))
    (h : textOf label ps = chunks.flatten)
    (he : (chunks.map (replaceAll label resolve)).flatten = restoredText label resolve ps) :
    Chunking label ps chunks := by
  rcases chunking_or_cut h with hc | ⟨pss, qs, p, rs, x, y, rest, rfl, rfl, hxy, hx, hy⟩
  · exact hc
  · exfalso
    have hmarker := p.isSome_digits?_of_cut hxy hx hy
    obtain ⟨digits, hp⟩ := Option.isSome_iff_exists.1 hmarker
    have hmem : p ∈ pss.flatten ++ qs ++ p :: rs := by simp
    obtain ⟨c, x, rfl⟩ := List.exists_cons_of_ne_nil hx
    have hfront := hps.of_isInfix (List.prefix_append (pss.flatten ++ qs) _).isInfix
    have hfragment : Fragment label (c :: x) :=
      ⟨p, digits, y, hp, hps.isNumber p hmem digits hp, hy, hxy⟩
    -- on the left stands the marker that is cut, on the right what it stands for
    obtain ⟨t, ht⟩ := (hfront.of_isInfix (List.suffix_append _ _).isInfix).replaceAll_fragment
      hfragment resolve
    obtain ⟨u, hu⟩ := hresolve p hmem hmarker
    have hpss : Chunking label pss.flatten (pss.map (textOf label)) := ⟨pss, rfl, rfl⟩
    rw [List.map_append, List.flatten_append,
      hpss.flatten_replaceAll (hfront.of_isInfix (List.prefix_append _ _).isInfix), List.map_cons,
      List.flatten_cons, ht, restoredText_append, restoredText_append, restoredText_cons, hu,
      List.append_assoc, List.append_assoc] at he
    have hhead := List.append_cancel_left (List.append_cancel_left he)
    exact ne_dollar_of_text hps.isLabel hp hxy (List.cons_eq_cons.1 hhead).1

end EmbeddedCss.Marker
