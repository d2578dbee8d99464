import EmbeddedCss.Proofs.Css.Unquoted
import EmbeddedCss.Proofs.Marker.Sites
import EmbeddedCss.Proofs.Sheet.RoundTrip

/-! # Interpolations in comments

An interpolation that stands inside of a comment should not matter to the tree: the template is read
as if some character stood in its place, and its marker is found inside of that comment. For this
the marker has to take the form for comments, and so the reading of the literals must see that the
interpolation stands in one. It always does if no quote stands outside of a comment. But it does not
see a comment behind a quote that the grammar takes for a character, because it takes every quote
for the start of a string. -/

namespace EmbeddedCss

open Css.Lexeme
open Marker (Context Unquoted)

/-! ## Comments in a text -/

/-- The path leads to a comment, and a span lies between the delimiters of the comment. -/
def Css.Root.CommentCovers (root : Css.Root) (path : Css.Path) (s : Span) : Prop :=
  ∃ n span, root.get? path = some n ∧ n.kind = .comment ∧ n.source = some span ∧
    span.start + 2 ≤ s.start ∧ s.stop + 2 ≤ span.stop

namespace Css

/-- A text whose tree has a comment of a certain span on a path has a tree, and the comment covers
what lies between its delimiters. -/
theorem exists_commentCovers (css : Text) (path : Path) (s span : Span)
    (h : (parse css).map (fun root ↦ (root.get? path).map fun n ↦ (n.kind, n.source)) =
      .ok (some (.comment, some span)))
    (hstart : span.start + 2 ≤ s.start) (hstop : s.stop + 2 ≤ span.stop) :
    ∃ root, parse css = .ok root ∧ root.CommentCovers path s := by
  obtain ⟨root, hparse, hnode⟩ := exists_of_map_eq_ok h
  obtain ⟨n, hn, he⟩ := Option.map_eq_some_iff.1 hnode
  obtain ⟨hkind, hspan⟩ := Prod.mk.inj he
  exact ⟨root, hparse, n, span, hn, hkind, hspan, hstart, hstop⟩

/-- A character inside of a comment has the opening of the comment in front of it and the end of the
comment behind it. -/
theorem Root.CommentCovers.exists_split {a b : Text} {root : Root} {path : Path}
    (hcovers : root.CommentCovers path ⟨Text.size a, Text.size a + 1⟩)
    (h : parse (a ++ 'x' :: b) = .ok root) :
    ∃ u v, a = u ++ '/' :: '*' :: v ∧ Passed (a ++ 'x' :: b) ('/' :: '*' :: v ++ 'x' :: b) ∧
      (comment ('/' :: '*' :: v ++ 'x' :: b)).isSome = true ∧
      Context.comment.after v = .comment ∧ (commentTail b).isSome = true := by
  obtain ⟨n, span, hn, hkind, hspan, hstart, hstop⟩ := hcovers
  obtain ⟨start, s, l, r, hsource, ⟨⟨u, hu, rfl⟩, hpassed⟩, hread⟩ := commentAt_of_parse h hn hkind
  cases hspan.symm.trans hsource
  obtain ⟨t, m, rfl, rfl, htail⟩ := exists_commentTail hread
  dsimp only at hstart hstop
  obtain ⟨w, rfl, hw⟩ : ∃ w, a = u ++ w ∧ '/' :: '*' :: t = w ++ 'x' :: b := by
    rcases List.append_eq_append_iff.1 hu with ⟨w, rfl, -⟩ | hw
    · rw [Text.size_append] at hstart
      omega
    · exact hw
  obtain ⟨v, rfl, rfl⟩ : ∃ v, w = '/' :: '*' :: v ∧ t = v ++ 'x' :: b := by
    rcases w with _ | ⟨c, _ | ⟨d, v⟩⟩
    · simp at hw
    · simp at hw
    · simp only [List.cons_append, List.cons.injEq] at hw
      exact ⟨v, by rw [hw.1, hw.2.1], hw.2.2⟩
  have hlt : Text.size v < Text.size m := by
    simp only [Text.size_append, Text.size_cons] at hstop
    omega
  exact ⟨u, v, rfl, hpassed, Option.isSome_of_eq_some hread,
    Context.after_comment_of_covers htail hlt⟩

/-- Without quotes outside of comments, the reading of a text sees the comment around its end. -/
theorem Root.CommentCovers.after_eq {a b : Text} {root : Root} {path : Path}
    (hcovers : root.CommentCovers path ⟨Text.size a, Text.size a + 1⟩)
    (h : parse (a ++ 'x' :: b) = .ok root) (hquote : Unquoted a) :
    Context.code.after a = .comment := by
  obtain ⟨u, v, rfl, ⟨l, hl, hafter⟩, hsome, hv, -⟩ := hcovers.exists_split h
  obtain rfl : u = l := by
    rw [List.append_assoc] at hl
    exact List.append_cancel_right hl
  have hcomment : HoldsComment ('/' :: '*' :: v ++ 'x' :: b) := ⟨_, List.suffix_rfl, hsome⟩
  rw [hafter hquote.left hcomment _ (List.prefix_append ..)]
  exact hv

/-- The comment that covers a part covers what the part is replaced by. -/
theorem Root.CommentCovers.of_alike {a w w' : Text} {root root' : Root} {path : Path}
    (h : root.CommentCovers path ⟨Text.size a, Text.size a + Text.size w⟩)
    (hnodes : List.Forall₂ (Node.Alike (moved a w w')) root.nodes root'.nodes) :
    root'.CommentCovers path ⟨Text.size a, Text.size a + Text.size w'⟩ := by
  obtain ⟨n, span, hn, hkind, hspan, hstart, hstop⟩ := h
  obtain ⟨n', hn', halike⟩ := Node.Alike.exists_get? hnodes hn
  cases halike with
  | comment =>
    cases hspan
    refine ⟨_, _, hn', rfl, rfl, ?_, ?_⟩ <;> dsimp only at hstart hstop ⊢
    · rw [moved, if_pos (by omega)]
      exact hstart
    · rw [moved, if_neg (by omega)]
      omega
  | rule => cases hkind
  | statement => cases hkind
  | atBlock => cases hkind
  | decl => cases hkind

end Css

/-! ## Inert interpolations -/

namespace Sheet

open Marker

/-- The template with one interpolation between two literals can be read. The marker has the form
for comments, and it lies inside of the comment that a path leads to. -/
def IsInert (a code b : Text) (o : Options) (path : Css.Path) : Prop :=
  ∃ sheet site, ofTemplate ⟨a, [(code, b)]⟩ o = .ok sheet ∧ sheet.sites = [site] ∧
    Text.slice (encode ⟨a, [(code, b)]⟩ o).css site.marker =
      bare (encode ⟨a, [(code, b)]⟩ o).table.label 0 ∧
    sheet.root.CommentCovers path site.marker

/-- With valid options, a template can be read if its stylesheet can. -/
theorem ofTemplate_of_parse {t : Template} {o : Options} {root : Css.Root}
    (ho : o.validate = .ok ()) (h : Css.parse (encode t o).css = .ok root) :
    ofTemplate t o = .ok ⟨root, some (encode t o).table, (encode t o).sites⟩ := by
  rw [ofTemplate, ho]
  change ofTemplateAt 0 t o = _
  simp only [ofTemplateAt, h]

section

variable (a code b : Text) (o : Options)

theorem css_encode_single : (encode ⟨a, [(code, b)]⟩ o).css = a ++
    (forContext (encode ⟨a, [(code, b)]⟩ o).table.label 0 (Context.code.after a) ++ b) := by
  simp [encode, slots]

theorem sites_encode_single : ∃ interpolation, (encode ⟨a, [(code, b)]⟩ o).sites =
    [⟨0, ⟨Text.size a, Text.size a + Text.size (forContext (encode ⟨a, [(code, b)]⟩ o).table.label 0
      (Context.code.after a))⟩, interpolation⟩] :=
  ⟨_, rfl⟩

end

/-- A bare marker is made of characters that open and close nothing. -/
theorem neutral_bare {label : Text} (h : Options.isLabel label = true) (index : Nat) :
    Neutral (bare label index) :=
  ⟨by simp [bare], fun _ hc ↦ isLabelChar_of_mem_bare h hc⟩

/-- Only inside of a comment does a marker have the form for comments. -/
theorem forContext_eq_bare_iff {label : Text} {index : Nat} {ctx : Context} :
    forContext label index ctx = bare label index ↔ ctx = .comment := by
  have hne : Marker.comment label index ≠ bare label index := by
    intro h
    have hlength := congrArg List.length h
    simp only [Marker.comment, bare, List.length_append, List.length_cons,
      List.length_nil] at hlength
    omega
  cases ctx with
  | comment => simp [forContext]
  | code => simpa [forContext] using hne
  | string quote => simpa [forContext] using hne

/-- An inert interpolation stands where the reading of the literal in front of it sees a comment. -/
theorem IsInert.after_eq {a code b : Text} {o : Options} {path : Css.Path}
    (h : IsInert a code b o path) : Context.code.after a = .comment := by
  obtain ⟨sheet, site, hsheet, hsite, hmarker, -⟩ := h
  obtain ⟨interpolation, hsites⟩ := sites_encode_single a code b o
  rw [(ofTemplate_eq_ok hsheet).2.2.2, hsites] at hsite
  cases hsite
  have hstands : (encode ⟨a, [(code, b)]⟩ o).css.StandsAt (Text.size a) _ :=
    ⟨a, css_encode_single a code b o, rfl⟩
  rw [hstands.slice_eq] at hmarker
  exact forContext_eq_bare_iff.1 hmarker

/-- The marker for comments takes the place of a character inside of a comment. -/
theorem isInert_of_after_eq {a b : Text} {root : Css.Root} {path : Css.Path} {o : Options}
    (ho : o.validate = .ok ()) (hparse : Css.parse (a ++ 'x' :: b) = .ok root)
    (hcovers : root.CommentCovers path ⟨Text.size a, Text.size a + 1⟩) (code : Text)
    (ha : EndsInComment .start a) (hctx : Context.code.after a = .comment) :
    IsInert a code b o path := by
  have hlabel : Options.isLabel (encode ⟨a, [(code, b)]⟩ o).table.label = true :=
    isLabel_chooseLabel ((Options.validate_eq_ok_iff o).1 ho).1 _
  obtain ⟨_, _, -, -, -, -, hb⟩ := hcovers.exists_split hparse
  obtain ⟨root', hparse', hnodes⟩ := Css.exists_parse_of_endsInComment (w := ['x']) ha
    ⟨by simp, by simp [isLabelChar]⟩ (neutral_bare hlabel 0) hb hparse
  obtain ⟨interpolation, hsites⟩ := sites_encode_single a code b o
  have hcss := css_encode_single a code b o
  rw [hctx, forContext] at hsites hcss
  rw [← hcss] at hparse'
  refine ⟨_, _, ofTemplate_of_parse ho hparse', hsites, ?_, hcovers.of_alike hnodes⟩
  exact Text.StandsAt.slice_eq ⟨a, hcss, rfl⟩

/-- An interpolation inside of a comment is inert only if the reading of the literal in front of it
ends in a comment. It is inert if besides the literal ends in a comment on every way that the
grammar may take through it. Both are the case if no quote of the literal stands outside of its
comments. -/
theorem isInert_of_endsInComment {a b : Text} {root : Css.Root} {path : Css.Path} {o : Options}
    (ho : o.validate = .ok ()) (hparse : Css.parse (a ++ 'x' :: b) = .ok root)
    (hcovers : root.CommentCovers path ⟨Text.size a, Text.size a + 1⟩) (code : Text) :
    (IsInert a code b o path → Context.code.after a = .comment) ∧
    (EndsInComment .start a → Context.code.after a = .comment → IsInert a code b o path) ∧
    (Unquoted a → IsInert a code b o path) := by
  have hinert := isInert_of_after_eq ho hparse hcovers code
  refine ⟨fun h ↦ h.after_eq, hinert, fun hquote ↦ ?_⟩
  have hctx := hcovers.after_eq hparse hquote
  exact hinert (endsInComment_of_unquoted hquote hctx) hctx

/-- An interpolation in a comment with an apostrophe, behind a string with another one. -/
theorem isInert_of_closed_string :
    ∃ root, Css.parse ("p\x7bb:\"it's\";/*don't ".toList ++ 'x' :: "*/\x7d".toList) = .ok root ∧
      root.CommentCovers [0, 1] ⟨19, 20⟩ ∧
      IsInert "p\x7bb:\"it's\";/*don't ".toList "e".toList "*/\x7d".toList {} [0, 1] := by
  obtain ⟨root, hparse, hcovers⟩ := Css.exists_commentCovers
    ("p\x7bb:\"it's\";/*don't ".toList ++ 'x' :: "*/\x7d".toList) [0, 1] ⟨19, 20⟩ ⟨11, 22⟩
    (by decide +kernel) (by decide) (by decide)
  have hstring : EndsInComment .rest "\"it's\";/*don't ".toList :=
    .string (by decide) rfl (.char (by decide) rfl (.unclosed rfl)) (absurd rfl)
  have hends : EndsInComment .start "p\x7bb:\"it's\";/*don't ".toList :=
    .char (by decide) rfl <| .char (by decide) rfl <| .char (by decide) rfl <|
      .char (by decide) rfl hstring
  have hinert := isInert_of_endsInComment (o := {}) (by decide +kernel) hparse hcovers "e".toList
  exact ⟨root, hparse, hcovers, hinert.2.1 hends (by decide)⟩

/-- Not every interpolation inside of a comment is inert. The grammar takes the apostrophe in the
group for a character, but the reading of the literal takes it for the start of a string. The marker
is a comment of its own, it closes the comment around it, and what is left cannot be read. -/
theorem not_isInert_of_apostrophe :
    ∃ root, Css.parse ("a: url(it's); /* ".toList ++ 'x' :: " */".toList) = .ok root ∧
      root.CommentCovers [1] ⟨17, 18⟩ ∧
      ¬ IsInert "a: url(it's); /* ".toList "e".toList " */".toList {} [1] := by
  obtain ⟨root, hparse, hcovers⟩ := Css.exists_commentCovers
    ("a: url(it's); /* ".toList ++ 'x' :: " */".toList) [1] ⟨17, 18⟩ ⟨14, 21⟩
    (by decide +kernel) (by decide) (by decide)
  refine ⟨root, hparse, hcovers, ?_⟩
  rintro ⟨sheet, site, hsheet, -⟩
  have herror : (ofTemplate ⟨"a: url(it's); /* ".toList, [("e".toList, " */".toList)]⟩ {}).isOk =
      false := by
    decide +kernel
  rw [hsheet] at herror
  cases herror

end Sheet

end EmbeddedCss
