import EmbeddedCss.Proofs.Document.Reading
import EmbeddedCss.Proofs.Marker.Offset
import EmbeddedCss.Proofs.Sheet.RoundTrip

/-! # From offsets in a stylesheet to offsets in its file

An offset in an embedded stylesheet is reported at a place in the file. The place keeps the order of
offsets. It holds the same byte of the same literal, or it is the start of the interpolation whose
marker the offset lies in; the end of the stylesheet is the end of the body. -/

namespace EmbeddedCss

/-- The body of a template that was taken apart is its text. -/
theorem Template.text_of_ofText {body : Text} {t : Template} (h : ofText body = .ok t) :
    t.text = body := by
  rw [ofText] at h
  split at h
  · rename_i u hu
    obtain rfl : u = t := Except.ok.inj h
    exact text_of_split hu
  · cases h

/-- Errors in other words change nothing where there is none. -/
theorem mapError_eq_ok_iff {ε ε' α : Type} {f : ε → ε'} {x : Except ε α} {a : α} :
    x.mapError f = .ok a ↔ x = .ok a := by
  cases x <;> simp [Except.mapError]

/-- A stylesheet that was read from a body is that of the template of the body. -/
theorem Sheet.exists_template_of_ofText {body : Text} {o : Options} {sheet : Sheet}
    (h : ofText body o = .ok sheet) :
    ∃ t, Template.ofText body = .ok t ∧ ofTemplate t o = .ok sheet := by
  obtain ⟨t, ht, h⟩ := exists_of_bind_eq_ok h
  exact ⟨t, mapError_eq_ok_iff.1 ht, h⟩

/-- Each stylesheet of a document was read from its body, which stands in the file. -/
theorem Document.exists_body_of_mem {o : Options} {source : Text} {doc : Document} {e : Embedded}
    (h : ofText source o = .ok doc) (he : e ∈ doc.sheets) :
    ∃ t r, source.StandsAt e.content.start (t.text ++ r) ∧
      e.content.stop = e.content.start + Text.size t.text ∧
      Template.ofText (Text.slice source e.content) = .ok t ∧
      Sheet.ofTemplate t o = .ok e.sheet := by
  obtain ⟨⟨⟩, ho, h'⟩ := exists_of_bind_eq_ok h
  obtain ⟨found, hscan, hfound⟩ := exists_of_bind_eq_ok h'
  replace ho := mapError_eq_ok_iff.1 ho
  have hplaced := Host.placed_of_scan (mapError_eq_ok_iff.1 hscan)
  have hsource := Text.standsAt_zero source
  rcases ofFound_cases ho hplaced hsource 0 with ⟨doc', hdoc', hsheets, -⟩ | ⟨_, _, _, -, -, -, herror⟩
  · obtain rfl : doc' = doc := Except.ok.inj (hdoc'.symm.trans hfound)
    obtain ⟨f, hf, hsheet⟩ := exists_of_forall₂ hsheets he
    obtain ⟨body, r, hbody, hstop, -⟩ := hplaced.standsAt hsource hf
    have hslice : Text.slice source f.content = body := by
      rw [show f.content = ⟨f.content.start, f.content.start + Text.size body⟩ from
        Span.ext rfl hstop]
      exact hbody.slice_eq
    obtain ⟨t, ht, hread⟩ := Sheet.exists_template_of_ofText hsheet.sheet
    rw [hslice] at ht
    obtain rfl := Template.text_of_ofText ht
    rw [hsheet.content, hslice]
    exact ⟨t, r, hbody, hstop, ht, hread⟩
  · cases hfound.symm.trans herror

namespace Embedded

/-- Offsets in the stylesheet `css` of a template lead to the right places of a file. -/
structure IsFaithful (source : Text) (t : Template) (css : Text) (e : Embedded) : Prop where
  /-- Later offsets lead to later places. -/
  mono {m n : Nat} : m ≤ n → e.offsetInFile m ≤ e.offsetInFile n
  /-- Outside of the markers, an offset and its place hold the same byte. -/
  byte {n : Nat} : n < Text.size css → (∀ site ∈ e.sheet.sites, site.marker.contains n = false) →
    source.bytes[e.offsetInFile n]? = css.bytes[n]?
  /-- That byte stands at the same place of the same literal. -/
  literal {n : Nat} : n < Text.size css →
    (∀ site ∈ e.sheet.sites, site.marker.contains n = false) →
    ∃ k l j, t.literals[k]? = some l ∧ j < Text.size l ∧
      n = Marker.literalStart 0 (e.sheet.sites.map Marker.Site.marker) k + j ∧
      e.offsetInFile n =
        e.content.start + Marker.literalStart 0 (t.interpolations.map Located.span) k + j
  /-- An offset in a marker leads to the start of the interpolation. -/
  marker {n i : Nat} {site : Marker.Site} : e.sheet.sites[i]? = some site →
    site.marker.contains n = true →
    ∃ l, t.interpolations[i]? = some l ∧ e.offsetInFile n = e.content.start + l.span.start ∧
      Text.slice source (l.span.shift e.content.start) = Template.interpolation l.value
  /-- The end of the stylesheet leads to the end of the body. -/
  stop : e.offsetInFile (Text.size css) = e.content.stop
  /-- No number is subtracted from a smaller one. -/
  checked (n : Nat) : Marker.bodyOffsetFrom? 0 0 n e.sheet.sites = some (e.sheet.bodyOffset n)

/-- What stands in the body of a stylesheet stands in its file. -/
theorem isFaithful_of_standsAt {source r : Text} {t : Template} {o : Options} {e : Embedded}
    (hsource : source.StandsAt e.content.start (t.text ++ r))
    (hstop : e.content.stop = e.content.start + Text.size t.text)
    (hsites : e.sheet.sites = (Marker.encode t o).sites) :
    IsFaithful source t (Marker.encode t o).css e := by
  have hoffset (n : Nat) : e.offsetInFile n =
      e.content.start + Marker.bodyOffset (Marker.encode t o).sites n := by
    rw [offsetInFile, Sheet.bodyOffset, hsites]
  have hliteral {n : Nat} (hn : n < Text.size (Marker.encode t o).css)
      (hout : ∀ site ∈ e.sheet.sites, site.marker.contains n = false) :
      ∃ k l j, t.literals[k]? = some l ∧ j < Text.size l ∧
        n = Marker.literalStart 0 (e.sheet.sites.map Marker.Site.marker) k + j ∧
        e.offsetInFile n =
          e.content.start + Marker.literalStart 0 (t.interpolations.map Located.span) k + j := by
    rw [hsites] at hout ⊢
    obtain ⟨k, l, j, hl, hj, hn, hbody⟩ := Marker.bodyOffset_of_literal hn hout
    exact ⟨k, l, j, hl, hj, hn, by rw [hoffset, hbody, Nat.add_assoc]⟩
  refine ⟨?_, ?_, hliteral, ?_, ?_, ?_⟩
  · intro m n hmn
    rw [hoffset, hoffset]
    exact Nat.add_le_add_left (Marker.bodyOffset_mono t o hmn) _
  · intro n hn hout
    obtain ⟨k, l, j, hl, hj, hcss, hfile⟩ := hliteral hn hout
    obtain ⟨⟨r₁, h₁⟩, ⟨r₂, h₂⟩⟩ := Marker.standsAt_literalStart (o := o) hl
    have hinfile := hsource.trans (h₂.append r)
    rw [List.append_assoc] at hinfile
    rw [hsites] at hcss
    rw [hfile, hcss, hinfile.getElem?_bytes hj, h₁.getElem?_bytes hj]
  · intro n i site hsite hn
    rw [hsites] at hsite
    obtain ⟨l, s, hl, hspan, hvalue, hs⟩ := Marker.exists_interpolation_of_site hsite
    obtain ⟨u, hu⟩ := hs.inBody
    refine ⟨l, hl, ?_, ?_⟩
    · rw [hoffset, Marker.bodyOffset_of_contains hsite hn, hspan]
    · have hinfile := hsource.trans (hu.append r)
      rw [List.append_assoc] at hinfile
      rw [hspan, hvalue, Span.shift, hs.interpolation, Nat.add_comm _ e.content.start,
        Nat.add_comm _ e.content.start, ← Nat.add_assoc]
      exact hinfile.slice_eq
  · rw [hoffset, Marker.bodyOffset_end, hstop]
  · intro n
    exact Marker.bodyOffsetFrom?_eq 0 _ (Nat.zero_le n)

end Embedded

/-- The offsets of every stylesheet of a document lead to the right places of the file. -/
theorem Document.isFaithful_of_ofText {o : Options} {source : Text} {doc : Document} {e : Embedded}
    (h : ofText source o = .ok doc) (he : e ∈ doc.sheets) :
    ∃ t, Template.ofText (Text.slice source e.content) = .ok t ∧
      Css.parse (Marker.encode t o).css = .ok e.sheet.root ∧
      e.sheet.sites = (Marker.encode t o).sites ∧
      e.IsFaithful source t (Marker.encode t o).css := by
  obtain ⟨t, r, hsource, hstop, ht, hread⟩ := exists_body_of_mem h he
  obtain ⟨-, hparse, -, hsites⟩ := Sheet.ofTemplate_eq_ok hread
  exact ⟨t, ht, hparse, hsites, Embedded.isFaithful_of_standsAt hsource hstop hsites⟩

/-- A file whose stylesheet has a marker that is longer than its interpolation. Offsets in the marker
lead to the dollar sign, those behind it to the bytes behind the interpolation. -/
theorem Document.isFaithful_of_ofText_long_marker :
    ∃ doc e, ofText "css`a$\x7bx\x7d:0`".toList {} = .ok doc ∧ doc.sheets = [e] ∧
      (Marker.encode ⟨['a'], [(['x'], [':', '0'])]⟩ {}).css = "a/*POSTCSS_LIT:0*/:0".toList ∧
      e.offsetInFile 9 = 5 ∧ e.offsetInFile 20 = 11 ∧
      (Text.bytes "css`a$\x7bx\x7d:0`".toList)[e.offsetInFile 18]? = some 58 := by
  have key : (ofText "css`a$\x7bx\x7d:0`".toList {}).map
      (fun doc ↦ doc.sheets.map fun e ↦ (e.content, e.sheet.sites)) =
      .ok [(⟨4, 11⟩, [⟨0, ⟨1, 18⟩, ⟨1, 5⟩⟩])] := by
    decide +kernel
  obtain ⟨doc, hdoc, hsheets⟩ := exists_of_map_eq_ok key
  obtain ⟨e, he, hfields⟩ := List.map_eq_singleton_iff.1 hsheets
  obtain ⟨hcontent, hsites⟩ := Prod.mk.inj hfields
  obtain ⟨t, ht, -, -, hfaithful⟩ := isFaithful_of_ofText hdoc (he ▸ List.mem_singleton_self e)
  obtain rfl : ⟨['a'], [(['x'], [':', '0'])]⟩ = t := by
    rw [hcontent] at ht
    exact Except.ok.inj (Eq.trans (by decide +kernel) ht)
  have hcss : (Marker.encode ⟨['a'], [(['x'], [':', '0'])]⟩ {}).css =
      "a/*POSTCSS_LIT:0*/:0".toList := by
    decide +kernel
  rw [hcss] at hfaithful
  refine ⟨doc, e, hdoc, he, hcss, ?_, ?_, ?_⟩
  · obtain ⟨l, hl, hoffset, -⟩ := hfaithful.marker (n := 9) (i := 0) (by rw [hsites]; rfl) (by decide)
    obtain rfl := Option.some.inj hl
    rw [hoffset, hcontent]
    decide +kernel
  · exact hfaithful.stop.trans (by rw [hcontent])
  · rw [hfaithful.byte (by decide +kernel) (by rw [hsites]; decide)]
    decide +kernel

end EmbeddedCss
