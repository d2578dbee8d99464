import EmbeddedCss.Proofs.Css.Tracing
import EmbeddedCss.Proofs.Document.Location
import EmbeddedCss.Proofs.Host.Delimiting
import EmbeddedCss.Proofs.Marker.Decoding

/-! # Where the errors of a file point

A stylesheet that cannot be read is complained about at a place of the file. The place lies in the
body of the template literal, or it is the closing backtick where the stylesheet ends too early.
What the hint says about the place holds in the file as well as in the stylesheet: a brace that is
too many is one that a person wrote, never one of a marker or of an interpolation. -/

namespace EmbeddedCss

/-! ## Characters of the stylesheet and of the template body -/

namespace Marker

variable {t : Template} {o : Options} {n : Nat}

/-- A marker of a template consists of slashes, stars, colons and characters of labels. -/
theorem isMarkerChar_of_mem_markerText (ho : Options.isLabel o.label = true) {i : Nat}
    (hi : i < t.tail.length) {c : Char} (hc : c ∈ (encode t o).markerText i) :
    isMarkerChar c = true := by
  have hlabel : Options.isLabel (encode t o).table.label = true :=
    isLabel_chooseLabel ho t.literals
  rcases markerText_eq_or hi with h | h <;> rw [h] at hc
  · exact isMarkerChar_of_mem_text hlabel (isNumber_ofNat i) hc
  · rcases isLabelChar_of_mem_bare hlabel hc with hc | rfl
    · simp [isMarkerChar, hc]
    · rfl

/-- A character that stands outside of the markers stands in the template body. -/
theorem exists_standsAt_bodyOffset {c : Char} {s : Text}
    (hc : Text.StandsAt (encode t o).css n (c :: s))
    (hout : ∀ site ∈ (encode t o).sites, site.marker.contains n = false) :
    ∃ s', t.text.StandsAt (bodyOffset (encode t o).sites n) (c :: s') := by
  have hn : n < Text.size (encode t o).css := by
    rw [hc.size_eq, Text.size_cons]
    have := c.utf8Size_pos
    omega
  obtain ⟨k, l, j, hl, hj, hoffset, hbody⟩ := bodyOffset_of_literal hn hout
  obtain ⟨⟨r₁, hcss⟩, ⟨r₂, htext⟩⟩ := standsAt_literalStart (o := o) hl
  obtain ⟨l₁, l₂, rfl, hsize⟩ := hcss.exists_split hc (by omega) (by omega)
  obtain rfl : Text.size l₁ = j := by omega
  rw [List.append_assoc] at htext
  rw [hbody]
  exact ⟨_, htext.advance⟩

/-- A character that stands in a marker is one of a marker. In the template body, the dollar sign of
the interpolation stands for it. -/
theorem standsAt_of_contains (ho : Options.isLabel o.label = true) {c : Char} {s : Text}
    (hc : Text.StandsAt (encode t o).css n (c :: s)) {site : Site}
    (hsite : site ∈ (encode t o).sites) (hn : site.marker.contains n = true) :
    isMarkerChar c = true ∧
      ∃ s', t.text.StandsAt (bodyOffset (encode t o).sites n) ('$' :: s') := by
  obtain ⟨i, hsite⟩ := List.getElem?_of_mem hsite
  obtain ⟨l, slot, -, -, -, hat⟩ := exists_interpolation_of_site hsite
  constructor
  · obtain ⟨hi, -⟩ := List.getElem?_eq_some_iff.1 hsite
    rw [sites_encode_eq, length_sitesFrom, templateSlots, length_slots] at hi
    obtain ⟨r, hr⟩ := hat.inCss
    have hbounds := (Span.contains_iff _ _).1 hn
    obtain ⟨l₁, l₂, hmarker, -⟩ := hr.exists_split hc hbounds.1 (hat.marker ▸ hbounds.2)
    refine isMarkerChar_of_mem_markerText ho hi ?_
    rw [Encoding.markerText, hsite, Option.elim_some, hat.slice_marker, hmarker]
    simp
  · obtain ⟨r, hr⟩ := hat.inBody
    rw [bodyOffset_of_contains hsite hn]
    exact ⟨_, hr⟩

/-- A brace of the stylesheet is not part of a marker. -/
theorem contains_eq_false_of_brace (ho : Options.isLabel o.label = true) {s : Text}
    (hs : Text.StandsAt (encode t o).css n ('}' :: s)) {site : Site}
    (hsite : site ∈ (encode t o).sites) : site.marker.contains n = false := by
  refine Bool.eq_false_iff.2 fun hin ↦ ?_
  exact absurd (standsAt_of_contains ho hs hsite hin).1 (by decide)

/-- A brace stands in the stylesheet exactly if it stands at the same place of a file in which the
template body is followed by a backtick. -/
theorem exists_brace_iff (ho : Options.isLabel o.label = true) {source rest s : Text} {m : Nat}
    (hsource : source.StandsAt m (t.text ++ '`' :: rest))
    (hs : Text.StandsAt (encode t o).css n s) :
    (∃ r, s = '}' :: r) ↔
      ∃ r, source.StandsAt (m + bodyOffset (encode t o).sites n) ('}' :: r) := by
  constructor
  · rintro ⟨r, rfl⟩
    obtain ⟨s', hs'⟩ := exists_standsAt_bodyOffset hs fun _ ↦ contains_eq_false_of_brace ho hs
    exact ⟨_, hsource.trans (hs'.append _)⟩
  · rintro ⟨r, hr⟩
    cases s with
    | nil =>
      -- the closing backtick stands there
      obtain rfl : Text.size (encode t o).css = n := hs.size_eq
      rw [bodyOffset_end] at hr
      cases hr.unique hsource.advance
    | cons c s =>
      by_cases hout : ∀ site ∈ (encode t o).sites, site.marker.contains n = false
      · obtain ⟨s', hs'⟩ := exists_standsAt_bodyOffset hs hout
        obtain ⟨rfl, -⟩ := List.cons.inj (hr.unique (hsource.trans (hs'.append _)))
        exact ⟨s, rfl⟩
      · -- the dollar sign of an interpolation stands there
        simp only [not_forall, Bool.not_eq_false] at hout
        obtain ⟨site, hsite, hin⟩ := hout
        obtain ⟨-, s', hs'⟩ := standsAt_of_contains ho hs hsite hin
        cases hr.unique (hsource.trans (hs'.append _))

end Marker

/-! ## Errors of a file -/

/-- The complaint `d` about a file is the complaint `e` about the stylesheet of a tagged literal, at
the right place. -/
structure Host.Tagged.IsErrorOf (source : Text) (o : Options) (f : Host.Tagged) (e d : Diagnostic) :
    Prop where
  /-- The stylesheet cannot be read. -/
  parse : Css.parse (Marker.encode f.template o).css = .error e
  /-- The complaint stays the same, and both ends of its span are moved to the file. -/
  moved : d = { e with
    span := ⟨f.content.start + Marker.bodyOffset (Marker.encode f.template o).sites e.span.start,
      f.content.start + Marker.bodyOffset (Marker.encode f.template o).sites e.span.stop⟩ }
  /-- It starts in the body or right behind it. -/
  start : f.content.start ≤ d.span.start ∧ d.span.start ≤ f.content.stop
  /-- It ends with the closing backtick at the latest. -/
  stop : d.span.start ≤ d.span.stop ∧ d.span.stop ≤ f.content.stop + 1
  /-- A brace is said to have no match if it is the brace that stands in the stylesheet, outside of
  every marker, and in the file. -/
  unmatched : d.hint = some Css.unmatchedHint ↔
    (∃ r, Text.StandsAt (Marker.encode f.template o).css e.span.start ('}' :: r)) ∧
      (∀ site ∈ (Marker.encode f.template o).sites,
        site.marker.contains e.span.start = false) ∧
      ∃ r, source.StandsAt d.span.start ('}' :: r)
  /-- That brace can be told by the file alone. -/
  unmatched_source : d.hint = some Css.unmatchedHint ↔ ∃ r, source.StandsAt d.span.start ('}' :: r)
  /-- Something is said to be open at the end of the stylesheet. -/
  unclosed : d.hint = some Css.unclosedHint ↔
    e.span.start = Text.size (Marker.encode f.template o).css
  /-- The end of the stylesheet is the end of the body. -/
  unclosed_source : e.span.start = Text.size (Marker.encode f.template o).css →
    d.span.start = f.content.stop

namespace Host.Tagged

variable {source rest : Text} {o : Options} {f : Tagged} {e d : Diagnostic}

/-- The template of a delimited literal stands in the file, with a backtick behind it. -/
theorem IsDelimited.standsAt (h : f.IsDelimited source) :
    ∃ rest, source.StandsAt f.content.start (f.template.text ++ '`' :: rest) ∧
      f.content.stop = f.content.start + Text.size f.template.text := by
  obtain ⟨before, body, rest, hsource, hcontent, -, -⟩ := h.outermost
  have hat : source.StandsAt (Text.size before) (['`'] ++ (body ++ '`' :: rest)) :=
    ⟨before, hsource, rfl⟩
  have hbody : source.StandsAt (Text.size before + 1) (body ++ '`' :: rest) := hat.advance
  have htext : f.template.text = body := by
    rw [h.text, hcontent]
    exact hbody.slice_eq
  rw [htext, hcontent]
  exact ⟨rest, hbody, rfl⟩

/-- The error of the stylesheet of a literal points to the right place of the file. -/
theorem isErrorOf_of_standsAt (ho : Options.isLabel o.label = true)
    (hsource : source.StandsAt f.content.start (f.template.text ++ '`' :: rest))
    (hstop : f.content.stop = f.content.start + Text.size f.template.text)
    (he : Css.parse (Marker.encode f.template o).css = .error e)
    (hd : d = { e with
      span := ⟨f.content.start + Marker.bodyOffset (Marker.encode f.template o).sites e.span.start,
        f.content.start + Marker.bodyOffset (Marker.encode f.template o).sites e.span.stop⟩ }) :
    f.IsErrorOf source o e d := by
  obtain ⟨s, hs, hone, hhint⟩ := Css.exists_of_parse_eq_error he
  have hsize := hs.size_eq
  have hspan : d.span.start = f.content.start +
      Marker.bodyOffset (Marker.encode f.template o).sites e.span.start := by rw [hd]
  have hhint : d.hint = Css.hintFor s := by rw [hd, ← hhint]
  have hunclosed : d.hint = some Css.unclosedHint ↔
      e.span.start = Text.size (Marker.encode f.template o).css := by
    rw [hhint, Css.hintFor_eq_unclosed_iff]
    constructor
    · rintro rfl
      exact hsize.symm
    · intro hend
      refine Classical.byContradiction fun hne ↦ ?_
      have := Text.size_pos hne
      omega
  have hatEnd (hend : e.span.start = Text.size (Marker.encode f.template o).css) :
      d.span.start = f.content.stop := by
    rw [hspan, hend, Marker.bodyOffset_end, hstop]
  have hbrace : d.hint = some Css.unmatchedHint ↔ ∃ r, s = '}' :: r := by
    rw [hhint, Css.hintFor_eq_unmatched_iff]
  have hfile : (∃ r, s = '}' :: r) ↔ ∃ r, source.StandsAt d.span.start ('}' :: r) := by
    rw [hspan]
    exact Marker.exists_brace_iff ho hsource hs
  refine ⟨he, hd, ?_, ?_, ?_, hbrace.trans hfile, hunclosed, hatEnd⟩
  · constructor
    · rw [hspan]
      exact Nat.le_add_right ..
    · rw [hspan, hstop, ← Marker.bodyOffset_end f.template o]
      exact Nat.add_le_add_left (Marker.bodyOffset_mono _ _ (by omega)) _
  · rw [hd, hstop, Nat.add_assoc, ← Marker.bodyOffset_past_end f.template o]
    constructor
    · exact Nat.add_le_add_left (Marker.bodyOffset_mono _ _ (by omega)) _
    · exact Nat.add_le_add_left (Marker.bodyOffset_mono _ _ (by omega)) _
  · rw [hbrace]
    refine ⟨fun h ↦ ?_, fun h ↦ hfile.2 h.2.2⟩
    obtain ⟨r, hr⟩ := h
    subst hr
    exact ⟨⟨r, hs⟩, fun _ ↦ Marker.contains_eq_false_of_brace ho hs, hfile.1 ⟨r, rfl⟩⟩

end Host.Tagged

namespace Sheet

/-- The error of a template is that of its stylesheet, with both ends of its span moved to the
template body. -/
theorem exists_of_ofTemplateAt_eq_error {t : Template} {o : Options} {index k : Nat}
    {d : Diagnostic} (h : ofTemplateAt index t o = .error (.css k d)) :
    ∃ e, Css.parse (Marker.encode t o).css = .error e ∧ d = { e with
      span := ⟨Marker.bodyOffset (Marker.encode t o).sites e.span.start,
        Marker.bodyOffset (Marker.encode t o).sites e.span.stop⟩ } := by
  simp only [ofTemplateAt] at h
  split at h
  · cases h
  · rename_i e he
    obtain ⟨-, rfl⟩ := SheetError.css.inj (Except.error.inj h)
    exact ⟨e, he, rfl⟩

end Sheet

/-- The error about the stylesheet with number `k` of a file points to the right place in the
literal with that number. -/
theorem Document.isErrorOf_of_ofText {o : Options} {source : Text} {k : Nat} {d : Diagnostic}
    (h : ofText source o = .error (.css k d)) :
    ∃ found f e, Host.scan o source = .ok found ∧ found[k]? = some f ∧
      f.IsErrorOf source o e d := by
  have ho : o.validate = .ok () := by
    cases ho : o.validate with
    | ok _ => rfl
    | error e =>
      rw [ofText, ho] at h
      cases h
  cases hscan : Host.scan o source with
  | error e =>
    rw [ofText, ho, hscan] at h
    cases h
  | ok found =>
    rw [ofText_eq_ofFound ho hscan] at h
    rcases ofFound_cases ho (Host.placed_of_scan hscan) (Text.standsAt_zero source) 0 with
      ⟨doc, hdoc, -⟩ | ⟨i, f, d', hf, -, herror, hfound⟩
    · cases h.symm.trans hdoc
    · obtain ⟨hk, rfl⟩ := SheetError.css.inj (Except.error.inj (hfound.symm.trans h))
      obtain rfl : i = k := (Nat.zero_add i).symm.trans hk
      have hdelimited := Host.isDelimited_of_scan hscan (List.mem_of_getElem? hf)
      rw [Sheet.ofText_eq_ofTemplateAt ho hdelimited.split] at herror
      obtain ⟨e, he, rfl⟩ := Sheet.exists_of_ofTemplateAt_eq_error herror
      obtain ⟨rest, hsource, hstop⟩ := hdelimited.standsAt
      refine ⟨found, f, e, rfl, hf, Host.Tagged.isErrorOf_of_standsAt
        ((Options.validate_eq_ok_iff o).1 ho).1 hsource hstop he ?_⟩
      rw [Diagnostic.shift, Span.shift, Nat.add_comm f.content.start, Nat.add_comm f.content.start]

/-- Two files with an error in their second literal. In the first, a brace behind an interpolation
is too many. In the second, a block that starts behind an interpolation is still open at the end. -/
theorem Document.isErrorOf_of_ofText_second :
    (∃ found f e d, ofText "css`a$\x7bx\x7d:0`;css`$\x7by\x7d\x7d`".toList {} = .error (.css 1 d) ∧
      Host.scan {} "css`a$\x7bx\x7d:0`;css`$\x7by\x7d\x7d`".toList = .ok found ∧
      found[1]? = some f ∧ d.span = ⟨21, 22⟩ ∧ d.hint = some Css.unmatchedHint ∧
      f.IsErrorOf "css`a$\x7bx\x7d:0`;css`$\x7by\x7d\x7d`".toList {} e d) ∧
    ∃ found f e d, ofText "css`a:0`;css`$\x7by\x7d\x7b`".toList {} = .error (.css 1 d) ∧
      Host.scan {} "css`a:0`;css`$\x7by\x7d\x7b`".toList = .ok found ∧
      found[1]? = some f ∧ d.span = ⟨18, 19⟩ ∧ d.hint = some Css.unclosedHint ∧
      f.IsErrorOf "css`a:0`;css`$\x7by\x7d\x7b`".toList {} e d := by
  constructor
  · have herror : ofText "css`a$\x7bx\x7d:0`;css`$\x7by\x7d\x7d`".toList {} = .error (.css 1
        ⟨⟨21, 22⟩, "invalid CSS: expected EOI, comment_node, selector, at_rule, or prop".toList,
          some Css.unmatchedHint⟩) := by
      decide +kernel
    obtain ⟨found, f, e, hscan, hf, he⟩ := isErrorOf_of_ofText herror
    exact ⟨found, f, e, _, herror, hscan, hf, rfl, rfl, he⟩
  · have herror : ofText "css`a:0`;css`$\x7by\x7d\x7b`".toList {} = .error (.css 1
        ⟨⟨18, 19⟩, "invalid CSS: expected comment_node, selector, at_rule, or prop".toList,
          some Css.unclosedHint⟩) := by
      decide +kernel
    obtain ⟨found, f, e, hscan, hf, he⟩ := isErrorOf_of_ofText herror
    exact ⟨found, f, e, _, herror, hscan, hf, rfl, rfl, he⟩

end EmbeddedCss
