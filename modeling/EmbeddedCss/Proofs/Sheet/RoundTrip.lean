import EmbeddedCss.Proofs.Css.Alignment
import EmbeddedCss.Proofs.Marker.Encoding
import EmbeddedCss.Sheet

/-! # Templates through the tree

The stylesheet of a template is read, printed in chunks, and each chunk has its interpolations put
back. If the stylesheet is printed as it was read, the template comes out unchanged exactly if no
chunk ends inside a marker. That can happen: which form a marker takes is found by reading the
literals, and this takes a quote in the name of a property for the start of a string, where the
grammar does not.

Where no comment starts in a literal it cannot happen, and then a marker whose interpolation was
taken out of the table stays as it is while the others are put back.

The number of a marker is read in 64 bits, so the statements are about templates whose
interpolations can be counted so. -/

namespace EmbeddedCss.Sheet

open Marker

/-- A sheet that was read has the tree of the encoded template, its table and its sites. -/
theorem ofTemplate_eq_ok {t : Template} {o : Options} {sheet : Sheet}
    (h : ofTemplate t o = .ok sheet) :
    Options.isLabel o.label = true ∧ Css.parse (encode t o).css = .ok sheet.root ∧
      sheet.table = some (encode t o).table ∧ sheet.sites = (encode t o).sites := by
  unfold ofTemplate at h
  cases hv : o.validate with
  | error e =>
    rw [hv] at h
    cases h
  | ok u =>
    rw [hv] at h
    change ofTemplateAt 0 t o = .ok sheet at h
    refine ⟨((Options.validate_eq_ok_iff o).1 hv).1, ?_⟩
    simp only [ofTemplateAt] at h
    split at h
    · rename_i root hroot
      obtain rfl : Sheet.mk root (some (encode t o).table) (encode t o).sites = sheet := by
        simpa using h
      exact ⟨hroot, rfl, rfl⟩
    · simp at h

section Tables

variable {t : Template} {o : Options}

/-- With all its interpolations, a template is restored to what it was. -/
theorem restoredText_encode (hlen : t.tail.length ≤ UInt64.size) :
    restoredText (encode t o).table.label (encode t o).table.resolve (templatePieces t) =
      t.text := by
  rw [← t.textWith_interpolation]
  refine restoredText_templatePieces (P := fun _ ↦ True) trivial (fun _ _ _ _ ↦ trivial) hlen ?_
  intro i p hp ctx _
  rw [resolve_encode, hp]
  rfl

/-- Every marker of a template stands for an interpolation, which starts with a dollar sign. -/
theorem exists_resolve_of_mem (hlen : t.tail.length ≤ UInt64.size) {p : Piece}
    (hp : p ∈ templatePieces t) (hmarker : p.digits?.isSome = true) :
    ∃ u, p.index?.bind (encode t o).table.resolve = some ('$' :: u) := by
  obtain ⟨i, c, hi, rfl⟩ := exists_piece_of_mem_templatePieces hp hmarker
  rw [Context.index?_piece (by omega), Option.bind_some, resolve_encode,
    List.getElem?_eq_getElem hi]
  exact ⟨_, rfl⟩

end Tables

/-! ## Templates that come out unchanged -/

/-- If a stylesheet is printed as it was read, its template comes out unchanged exactly if no chunk
ends inside a marker. -/
theorem text_eq_iff_not_cutsSpan {t : Template} {o : Options} {sheet : Sheet}
    (h : ofTemplate t o = .ok sheet) (hcss : sheet.root.text = (encode t o).css)
    (hlen : t.tail.length ≤ UInt64.size) :
    sheet.text = t.text ↔
      ∀ a b, sheet.root.chunks = a ++ b → ∀ site ∈ sheet.sites, ¬ CutsSpan a site.marker := by
  obtain ⟨ho, -, htable, hsites⟩ := ofTemplate_eq_ok h
  have hlegible := legible_templatePieces t ho
  have hflatten : textOf (encode t o).table.label (templatePieces t) = sheet.root.chunks.flatten :=
    (css_encode t o).symm.trans hcss.symm
  have htext : sheet.text = (sheet.root.chunks.map
      (replaceAll (encode t o).table.label (encode t o).table.resolve)).flatten := by
    rw [text, chunks, htable]
    rfl
  have hspans : (∀ a b, sheet.root.chunks = a ++ b → ∀ site ∈ sheet.sites,
      ¬ CutsSpan a site.marker) ↔
      Chunking (encode t o).table.label (templatePieces t) sheet.root.chunks := by
    rw [chunking_iff_not_cutsSpan hflatten, ← marker_encode, hsites]
    simp
  rw [hspans, htext, ← restoredText_encode hlen]
  constructor
  · intro he
    exact hlegible.chunking_of_flatten_replaceAll (fun p ↦ exists_resolve_of_mem hlen) hflatten he
  · intro hc
    exact hc.flatten_replaceAll hlegible _

/-- A template with markers of both forms, in a comment, a group and a string. -/
theorem not_cutsSpan_of_comment_group_string :
    ∃ sheet, ofTemplate ⟨"p/*".toList, [("x".toList, "*/:url(".toList), ("y".toList, ") \"".toList),
        ("z".toList, "\"".toList)]⟩ {} = .ok sheet ∧
      sheet.root.text = "p/*POSTCSS_LIT:0:*/:url(/*POSTCSS_LIT:1*/) \"/*POSTCSS_LIT:2*/\"".toList ∧
      sheet.text = "p/*$\x7bx\x7d*/:url($\x7by\x7d) \"$\x7bz\x7d\"".toList ∧
      ∀ a b, sheet.root.chunks = a ++ b → ∀ site ∈ sheet.sites, ¬ CutsSpan a site.marker := by
  have key : (ofTemplate ⟨"p/*".toList, [("x".toList, "*/:url(".toList),
      ("y".toList, ") \"".toList), ("z".toList, "\"".toList)]⟩ {}).map
        (fun sheet ↦ (sheet.root.text, sheet.text)) =
      .ok ("p/*POSTCSS_LIT:0:*/:url(/*POSTCSS_LIT:1*/) \"/*POSTCSS_LIT:2*/\"".toList,
        "p/*$\x7bx\x7d*/:url($\x7by\x7d) \"$\x7bz\x7d\"".toList) := by
    decide +kernel
  obtain ⟨sheet, h, he⟩ := exists_of_map_eq_ok key
  obtain ⟨hroot, htext⟩ := Prod.mk.inj he
  refine ⟨sheet, h, hroot, htext, (text_eq_iff_not_cutsSpan h ?_ (by decide)).1 ?_⟩
  · rw [hroot]
    decide +kernel
  · rw [htext]
    decide +kernel

/-- Not every template comes out unchanged. The quote in the name of the property is taken for the
start of a string that ends at the next one, so that the interpolation seems to stand in a comment;
its marker is read as a declaration, and its chunks are the name, the colon and the value. -/
theorem text_ne_of_quote_in_property :
    ∃ sheet, ofTemplate ⟨"x\":\"/*\"; ".toList, [("e".toList, [])]⟩ {} = .ok sheet ∧
      sheet.root.text = (encode ⟨"x\":\"/*\"; ".toList, [("e".toList, [])]⟩ {}).css ∧
      sheet.text = "x\":\"/*\"; POSTCSS_LIT:0:".toList ∧
      sheet.text ≠ (Template.mk "x\":\"/*\"; ".toList [("e".toList, [])]).text := by
  have key : (ofTemplate ⟨"x\":\"/*\"; ".toList, [("e".toList, [])]⟩ {}).map
        (fun sheet ↦ (sheet.root.text, sheet.text)) =
      .ok ((encode ⟨"x\":\"/*\"; ".toList, [("e".toList, [])]⟩ {}).css,
        "x\":\"/*\"; POSTCSS_LIT:0:".toList) := by
    decide +kernel
  obtain ⟨sheet, h, he⟩ := exists_of_map_eq_ok key
  obtain ⟨hroot, htext⟩ := Prod.mk.inj he
  refine ⟨sheet, h, hroot, htext, ?_⟩
  rw [htext]
  decide +kernel

/-! ## Templates without comments -/

section NoComments

variable {t : Template} {o : Options} {sheet : Sheet} (h : ofTemplate t o = .ok sheet)
  (hcss : sheet.root.text = (encode t o).css) (hlen : t.tail.length ≤ UInt64.size)
  (hl : ∀ l ∈ t.literals, ¬ ['/', '*'] <:+: l)

include h hcss hlen hl

/-- A template comes out with each marker replaced that the table knows. -/
theorem text_of_resolve {table : Table} (hlabel : table.label = (encode t o).table.label)
    {shown : Nat → Text → Text} (hshown : ∀ i p, t.tail[i]? = some p →
      (table.resolve i).getD (comment table.label i) = shown i p.1) :
    text { sheet with table := some table } = t.textWith shown := by
  obtain ⟨ho, hparse, -, -⟩ := ofTemplate_eq_ok h
  have huncommented := uncommented_templatePieces ho hl
  rw [css_encode] at hparse hcss
  have hchunking := Css.chunking_of_parse huncommented hparse hcss
  rw [← hlabel] at hchunking huncommented
  change (sheet.root.chunks.map (replaceAll table.label table.resolve)).flatten = _
  rw [hchunking.flatten_replaceAll huncommented.toLegible]
  refine restoredText_templatePieces (P := (· ≠ .comment)) (by simp)
    (fun ctx hctx l hmem ↦ Context.after_ne_comment hctx (hl l hmem)) hlen ?_
  intro i p hp ctx hctx
  rw [← hshown i p hp]
  cases ctx with
  | comment => exact absurd rfl hctx
  | code => rfl
  | string quote => rfl

/-- Markers of interpolations that are taken out of the table stay, the others are replaced. -/
theorem text_foldl_remove (removed : List Nat) :
    text { sheet with table := sheet.table.map fun table ↦ removed.foldl Table.remove table } =
      t.textWith fun i code ↦
        if i ∈ removed then comment (encode t o).table.label i
        else Template.interpolation code := by
  obtain ⟨-, -, htable, -⟩ := ofTemplate_eq_ok h
  rw [htable, Option.map_some]
  refine text_of_resolve h hcss hlen hl (label_foldl_remove _ _) ?_
  intro i p hp
  rw [resolve_foldl_remove, resolve_encode, hp, label_foldl_remove]
  split <;> rfl

/-- With a table that was cleared, every marker stays. -/
theorem text_clear :
    text { sheet with table := sheet.table.map Table.clear } =
      t.textWith fun i _ ↦ comment (encode t o).table.label i := by
  obtain ⟨-, -, htable, -⟩ := ofTemplate_eq_ok h
  rw [htable, Option.map_some]
  refine text_of_resolve h hcss hlen hl (show (encode t o).table.clear.label = _ from rfl) ?_
  intro i p hp
  rw [Table.resolve, Table.get?_clear]
  rfl

end NoComments

/-- Without a table, the stylesheet is printed as it is. -/
theorem text_without_table (sheet : Sheet) :
    text { sheet with table := none } = sheet.root.text := by
  change (sheet.root.chunks.map id).flatten = _
  rw [List.map_id]
  rfl

/-- If no comment starts in a literal of a template and its stylesheet is printed as it was read,
the template comes out unchanged. If interpolations are taken out of the table, it comes out with
their markers in their places and with nothing else changed; without a table the stylesheet comes
out. -/
theorem text_of_removed {t : Template} {o : Options} {sheet : Sheet}
    (h : ofTemplate t o = .ok sheet) (hcss : sheet.root.text = (encode t o).css)
    (hlen : t.tail.length ≤ UInt64.size) (hl : ∀ l ∈ t.literals, ¬ ['/', '*'] <:+: l) :
    sheet.text = t.text ∧
    (∀ removed : List Nat,
      text { sheet with table := sheet.table.map fun table ↦ removed.foldl Table.remove table } =
        t.textWith fun i code ↦
          if i ∈ removed then comment (encode t o).table.label i
          else Template.interpolation code) ∧
    text { sheet with table := sheet.table.map Table.clear } =
      t.textWith (fun i _ ↦ comment (encode t o).table.label i) ∧
    text { sheet with table := none } = (encode t o).css := by
  refine ⟨?_, text_foldl_remove h hcss hlen hl, text_clear h hcss hlen hl, ?_⟩
  · simpa [Template.textWith_interpolation] using text_foldl_remove h hcss hlen hl []
  · rw [text_without_table, hcss]

/-- A template with interpolations in a property, a value and a string, one of them taken out of the
table. The stylesheet is one declaration with all three markers. -/
theorem text_of_removed_value :
    ∃ sheet, ofTemplate ⟨[], [("p".toList, ":\\".toList), ("v".toList, "\"".toList),
        ("s".toList, "\"!important".toList)]⟩ {} = .ok sheet ∧
      sheet.root.nodes = [.decl "/*POSTCSS_LIT:0*/".toList
        "\\/*POSTCSS_LIT:1*/\"/*POSTCSS_LIT:2*/\"".toList true
        { before := some [], between := some ":".toList, important := some "!important".toList }
        (some ⟨0, 65⟩)] ∧
      text { sheet with table := sheet.table.map fun table ↦ [1].foldl Table.remove table } =
        "$\x7bp\x7d:\\/*POSTCSS_LIT:1*/\"$\x7bs\x7d\"!important".toList := by
  have key : (ofTemplate ⟨[], [("p".toList, ":\\".toList), ("v".toList, "\"".toList),
      ("s".toList, "\"!important".toList)]⟩ {}).map
        (fun sheet ↦ (sheet.root.nodes, sheet.root.text)) =
      .ok ([.decl "/*POSTCSS_LIT:0*/".toList
          "\\/*POSTCSS_LIT:1*/\"/*POSTCSS_LIT:2*/\"".toList true
          { before := some [], between := some ":".toList, important := some "!important".toList }
          (some ⟨0, 65⟩)],
        "/*POSTCSS_LIT:0*/:\\/*POSTCSS_LIT:1*/\"/*POSTCSS_LIT:2*/\"!important".toList) := by
    decide +kernel
  obtain ⟨sheet, h, he⟩ := exists_of_map_eq_ok key
  obtain ⟨hnodes, hroot⟩ := Prod.mk.inj he
  refine ⟨sheet, h, hnodes, ((text_of_removed h ?_ (by decide) (by decide)).2.1 [1]).trans ?_⟩
  · rw [hroot]
    decide +kernel
  · decide +kernel

end EmbeddedCss.Sheet
