import EmbeddedCss.Proofs.Marker.Encoding
import EmbeddedCss.Proofs.Marker.Sites

/-! # Decoding undoes encoding

However the stylesheet of a template is cut into chunks, as long as no chunk ends inside a marker,
putting the interpolations back chunk by chunk gives the template body. An interpolation that was
taken out of the table is left as its marker, and nothing else changes. Each marker is found exactly
once, so that the tally has one of the two counts go up for each interpolation. -/

namespace EmbeddedCss.Marker

/-! ## Counting -/

/-- Markers are counted one by one, as replaced if the table has their entry and else as gone. -/
theorem foldl_count (table : Table) (is : List Nat) (tally : Tally) :
    is.foldl (Tally.count table) tally =
      ⟨tally.restored + is.countP fun i ↦ (table.resolve i).isSome,
        tally.unresolved + is.countP fun i ↦ !(table.resolve i).isSome⟩ := by
  induction is generalizing tally with
  | nil => rfl
  | cons i is ih =>
    rw [List.foldl_cons, ih, List.countP_cons, List.countP_cons]
    cases h : (table.resolve i).isSome <;> simp [Tally.count, h, Nat.add_assoc, Nat.add_comm 1]

/-- The tally goes through the markers of all chunks in order. -/
theorem tally_eq_foldl (table : Table) (chunks : List Text) :
    tally (some table) chunks =
      (chunks.flatMap (indices table.label)).foldl (Tally.count table) {} := by
  rw [List.foldl_flatMap]
  rfl

theorem filterMap_index?_map_char (l : Text) :
    (l.map Piece.char).filterMap Piece.index? = [] := by
  rw [List.filterMap_map, List.filterMap_eq_nil_iff]
  intro c _
  rfl

/-- The markers of a tail are numbered in order. -/
theorem filterMap_index?_weave (ctx : Context) {index : Nat} {tail : List (Text × Text)}
    (hlen : index + tail.length ≤ UInt64.size) :
    (weave ctx index tail).filterMap Piece.index? = List.range' index tail.length := by
  induction tail generalizing ctx index with
  | nil => rfl
  | cons p tail ih =>
    rw [List.length_cons] at hlen
    rw [weave, List.filterMap_cons_some (Context.index?_piece (by omega) ctx),
      List.filterMap_append, filterMap_index?_map_char, ih _ (by omega), List.length_cons,
      List.range'_succ, List.nil_append]

/-- The markers of a template are numbered like its interpolations. -/
theorem filterMap_index?_templatePieces {t : Template} (hlen : t.tail.length ≤ UInt64.size) :
    (templatePieces t).filterMap Piece.index? = List.range t.tail.length := by
  rw [templatePieces, List.filterMap_append, filterMap_index?_map_char,
    filterMap_index?_weave _ (by omega), List.nil_append, List.range_eq_range']

/-- How many of the numbers below `n` are in a list, counted on either side. -/
theorem countP_mem_range (removed : List Nat) (n : Nat) :
    (List.range n).countP (fun i ↦ decide (i ∈ removed)) =
      (removed.toFinset ∩ Finset.range n).card := by
  have hnodup : ((List.range n).filter fun i ↦ decide (i ∈ removed)).Nodup :=
    List.nodup_range.filter _
  rw [List.countP_eq_length_filter, ← List.toFinset_card_of_nodup hnodup]
  congr 1
  ext i
  simp [and_comm]

/-- Of the markers of a template, those are gone whose interpolations were taken out. -/
theorem foldl_count_removed {t : Template} {o : Options} (removed : List Nat) :
    (List.range t.tail.length).foldl
        (Tally.count (removed.foldl Table.remove (encode t o).table)) {} =
      ⟨t.tail.length - (removed.toFinset ∩ Finset.range t.tail.length).card,
        (removed.toFinset ∩ Finset.range t.tail.length).card⟩ := by
  have hgone : (List.range t.tail.length).countP (fun i ↦
      !((removed.foldl Table.remove (encode t o).table).resolve i).isSome) =
        (removed.toFinset ∩ Finset.range t.tail.length).card := by
    rw [← countP_mem_range]
    refine List.countP_congr fun i hi ↦ ?_
    rw [resolve_foldl_remove, resolve_encode, List.getElem?_eq_getElem (List.mem_range.1 hi)]
    by_cases h : i ∈ removed <;> simp [h]
  have hall := List.length_eq_countP_add_countP
    (fun i ↦ ((removed.foldl Table.remove (encode t o).table).resolve i).isSome)
    (l := List.range t.tail.length)
  simp only [Bool.decide_eq_false, Bool.not_eq_true, List.length_range, hgone] at hall
  rw [foldl_count, hgone, Nat.zero_add, Nat.zero_add, Nat.eq_sub_of_add_eq hall.symm]

/-! ## Markers -/

/-- The marker of interpolation number `i`, as it stands in the stylesheet. -/
def Encoding.markerText (e : Encoding) (i : Nat) : Text :=
  (e.sites[i]?).elim [] fun site ↦ Text.slice e.css site.marker

/-- The marker of a slot stands where the site says. -/
theorem markerText_of_slot {t : Template} {o : Options} {i : Nat} {s : Slot}
    (hs : (templateSlots t o)[i]? = some s) : (encode t o).markerText i = s.marker := by
  obtain ⟨site, hsite, h⟩ := exists_site_encode t o hs
  rw [Encoding.markerText, hsite, Option.elim_some, h.slice_marker]

/-- Every marker has one of the two forms. -/
theorem markerText_eq_or {t : Template} {o : Options} {i : Nat} (hi : i < t.tail.length) :
    (encode t o).markerText i = comment (encode t o).table.label i ∨
      (encode t o).markerText i = bare (encode t o).table.label i := by
  have hi' : i < (templateSlots t o).length := by rwa [templateSlots, length_slots]
  have hs := List.getElem?_eq_getElem hi'
  obtain ⟨c, -, hmarker, -⟩ := exists_context_of_slots (P := fun _ ↦ True) trivial
    (fun _ _ _ _ ↦ trivial) hs
  rw [markerText_of_slot hs, hmarker, Nat.zero_add]
  cases c with
  | comment => exact .inr rfl
  | code => exact .inl rfl
  | string quote => exact .inl rfl

/-! ## Decoding -/

/-- If no chunk of the stylesheet of a template ends inside a marker, the chunks are restored to the
template body, with the marker in place of each interpolation that was taken out of the table. The
interpolations that are there are counted as restored, the others as unresolved. -/
theorem restore_encode {t : Template} {o : Options} (ho : o.validate = .ok ())
    (hlen : t.tail.length ≤ UInt64.size) (removed : List Nat) {chunks : List Text}
    (hchunks : chunks.flatten = (encode t o).css)
    (hcuts : ∀ a b, chunks = a ++ b → ∀ site ∈ (encode t o).sites, ¬ CutsSpan a site.marker) :
    (chunks.map (restore (some (removed.foldl Table.remove (encode t o).table)))).flatten =
        t.textWith (fun i code ↦
          if i ∈ removed then (encode t o).markerText i else Template.interpolation code) ∧
      tally (some (removed.foldl Table.remove (encode t o).table)) chunks =
        ⟨t.tail.length - (removed.toFinset ∩ Finset.range t.tail.length).card,
          (removed.toFinset ∩ Finset.range t.tail.length).card⟩ ∧
      ∀ i < t.tail.length,
        (encode t o).markerText i = comment (encode t o).table.label i ∨
          (encode t o).markerText i = bare (encode t o).table.label i := by
  have hlegible := legible_templatePieces t ((Options.validate_eq_ok_iff o).1 ho).1
  have hchunking : Chunking (encode t o).table.label (templatePieces t) chunks := by
    rw [chunking_iff_not_cutsSpan ((css_encode t o).symm.trans hchunks.symm), ← marker_encode]
    intro a b hab s hs
    obtain ⟨site, hsite, rfl⟩ := List.mem_map.1 hs
    exact hcuts a b hab site hsite
  rw [← label_foldl_remove _ removed] at hlegible hchunking
  refine ⟨?_, ?_, fun i hi ↦ markerText_eq_or hi⟩
  · refine (hchunking.flatten_replaceAll hlegible _).trans (restoredText_of_slots hlen ?_)
    intro i s hs
    rw [label_foldl_remove] at hs
    obtain ⟨-, -, -, hp⟩ := exists_context_of_slots (P := fun _ ↦ True) trivial
      (fun _ _ _ _ ↦ trivial) hs
    rw [resolve_foldl_remove, resolve_encode, hp, ← markerText_of_slot hs]
    split <;> rfl
  · rw [tally_eq_foldl, hchunking.flatMap_indices hlegible,
      filterMap_index?_templatePieces hlen, foldl_count_removed]

/-- A template with markers of both forms and a comment that looks like a marker. The chunks end
right at the ends of markers, and one interpolation is taken out. -/
theorem restore_encode_both_forms :
    ∃ (t : Template) (chunks : List Text),
      t.text = "/*POSTCSS_LIT:0*/a/*$\x7bx\x7d*/7$\x7by\x7d7".toList ∧
      chunks = ["/*POSTCSS_LIT:0*/a/*", "POSTCSS_LIT_1:0:", "*/7", "/*POSTCSS_LIT_1:1*/7"].map
        String.toList ∧
      (chunks.map (restore (some ([1, 5].foldl Table.remove (encode t {}).table)))).flatten =
        "/*POSTCSS_LIT:0*/a/*$\x7bx\x7d*/7/*POSTCSS_LIT_1:1*/7".toList ∧
      tally (some ([1, 5].foldl Table.remove (encode t {}).table)) chunks = ⟨1, 1⟩ := by
  refine ⟨⟨"/*POSTCSS_LIT:0*/a/*".toList, [("x".toList, "*/7".toList), ("y".toList, "7".toList)]⟩,
    _, by decide +kernel, rfl, ?_⟩
  have hcuts : ∀ n ≤ 4, ∀ site ∈ (encode ⟨"/*POSTCSS_LIT:0*/a/*".toList,
      [("x".toList, "*/7".toList), ("y".toList, "7".toList)]⟩ {}).sites,
      ¬ CutsSpan ((["/*POSTCSS_LIT:0*/a/*", "POSTCSS_LIT_1:0:", "*/7",
        "/*POSTCSS_LIT_1:1*/7"].map String.toList).take n) site.marker := by
    decide +kernel
  have hcuts' : ∀ a b, ["/*POSTCSS_LIT:0*/a/*", "POSTCSS_LIT_1:0:", "*/7",
      "/*POSTCSS_LIT_1:1*/7"].map String.toList = a ++ b →
      ∀ site ∈ (encode ⟨"/*POSTCSS_LIT:0*/a/*".toList,
        [("x".toList, "*/7".toList), ("y".toList, "7".toList)]⟩ {}).sites,
        ¬ CutsSpan a site.marker := by
    intro a b hab
    have hlength := congrArg List.length hab
    rw [List.length_append] at hlength
    have ha := hcuts a.length (le_of_le_of_eq (Nat.le_add_right _ _) hlength.symm)
    rwa [hab, List.take_left] at ha
  obtain ⟨htext, htally, -⟩ :=
    restore_encode (by decide +kernel) (by decide) [1, 5] (by decide +kernel) hcuts'
  exact ⟨htext.trans (by decide +kernel), htally.trans (by decide +kernel)⟩

end EmbeddedCss.Marker
