import EmbeddedCss.Proofs.Marker.Sites
import EmbeddedCss.Proofs.Marker.Uncommented

/-! # Markers do not change the context

The form of a marker is chosen from the literals in front of it, which are read one by one as if no
marker stood between them. In the stylesheet the markers do stand there, and the text is read in one
pass. The main statement is that both ways of reading agree at every marker: a marker leaves the
context as it is, and it keeps the literals on its two sides apart, so that no delimiter is made of
the end of the one and the start of the other. -/

namespace EmbeddedCss

/-- The context in which interpolation number `i` is reached, if the literals in front of it are
read one by one. -/
def Template.contextAt (t : Template) (i : Nat) : Marker.Context :=
  (t.literals.take (i + 1)).foldl Marker.Context.after .code

namespace Marker

namespace Context

/-! ## Reading in two parts -/

/-- A character that completes no delimiter in a context, and means nothing in a string. -/
def Separates : Context → Char → Prop
  | .code, c => c ≠ '*'
  | .comment, c => c ≠ '/'
  | .string quote, c => c ≠ quote ∧ c ≠ '\n' ∧ c ≠ '\\'

/-- A character that means nothing in a string is passed over there. -/
theorem after_string_cons {quote c : Char} (h : (string quote).Separates c) (t : Text) :
    (string quote).after (c :: t) = (string quote).after t := by
  obtain ⟨hquote, hline, hslash⟩ := h
  rw [Context.after, if_neg (by simp [hquote, hline])]
  rintro d u rfl
  exact absurd rfl hslash

/-- A text is read in two parts if the second starts with a character that completes no delimiter.
A backslash at the end of the first part takes only its meaning from this character, which has
none. -/
theorem after_append_cons {start : Context} (hstart : start.Regular) {u : Text} {c : Char}
    (h : (start.after u).Separates c) (v : Text) :
    start.after (u ++ c :: v) = (start.after u).after (c :: v) := by
  fun_induction Context.after start u with
  | case1 ctx => rfl
  | case2 t ih => exact ih trivial h
  | case3 d t hopen hquote ih =>
    rw [List.cons_append, Context.after, if_pos hquote, ih hquote h]
    rintro w rfl
    simp at hquote
  | case4 d t hopen hquote ih =>
    rw [List.cons_append, Context.after, if_neg hquote, ih trivial h]
    rintro w rfl hw
    cases t with
    | nil => exact h (List.cons.inj hw).1
    | cons e t => exact hopen t rfl (by rw [(List.cons.inj hw).1])
  | case5 t ih => exact ih trivial h
  | case6 d t hclose ih =>
    rw [List.cons_append, after_comment_cons, ih trivial h]
    rintro w rfl hw
    cases t with
    | nil => exact h (List.cons.inj hw).1
    | cons e t => exact hclose t rfl (by rw [(List.cons.inj hw).1])
  | case7 quote d t ih => exact ih hstart h
  | case8 quote d t hslash hend ih =>
    have hd : d ≠ '\\' := by
      rintro rfl
      rcases hstart with rfl | rfl <;> simp at hend
    rw [List.cons_append, Context.after, if_pos hend, ih trivial h]
    exact fun e w hd' ↦ absurd hd' hd
  | case9 quote d t hslash hend ih =>
    by_cases hd : d = '\\' ∧ t = []
    · obtain ⟨rfl, rfl⟩ := hd
      exact (after_string_cons h v).symm
    · rw [List.cons_append, Context.after, if_neg hend, ih hstart h]
      rintro e w rfl hw
      cases t with
      | nil => exact hd ⟨rfl, rfl⟩
      | cons f t => exact hslash f t rfl rfl

/-- A text is passed over if each of its characters is, whatever follows it. -/
theorem after_append_of_forall_mem {ctx : Context} {l : Text}
    (h : ∀ c ∈ l, ∀ t, ctx.after (c :: t) = ctx.after t) (x : Text) :
    ctx.after (l ++ x) = ctx.after x := by
  induction l with
  | nil => rfl
  | cons c l ih =>
    rw [List.cons_append, h c (List.mem_cons_self ..),
      ih fun d hd ↦ h d (List.mem_cons_of_mem _ hd)]

/-- The characters of markers mean nothing in a string. -/
theorem separates_of_isMarkerChar {quote c : Char} (hquote : (string quote).Regular)
    (hc : isMarkerChar c = true) : (string quote).Separates c := by
  refine ⟨?_, ?_, ?_⟩
  · rintro rfl
    rcases hquote with rfl | rfl <;> revert hc <;> decide
  · rintro rfl
    revert hc
    decide
  · rintro rfl
    revert hc
    decide

end Context

/-! ## Reading a marker -/

section Labels

variable {label : Text} (hlabel : Options.isLabel label = true)

include hlabel

/-- The label, the colon and the digits of a marker are passed over in a comment. -/
theorem Context.after_comment_label (index : Nat) (x : Text) :
    comment.after (label ++ [':'] ++ Text.ofNat index ++ x) = comment.after x := by
  refine after_append_of_forall_mem (fun c hmem t ↦ after_comment_cons ?_) x
  rintro _ rfl
  have hchar := isLabelChar_of_mem_bare hlabel (List.mem_append_left [':'] hmem)
  exact absurd hchar (by decide)

/-- A marker is passed over in a string. -/
theorem Context.after_string_comment {quote : Char} (hquote : (string quote).Regular) (index : Nat)
    (x : Text) :
    (string quote).after (Marker.comment label index ++ x) = (string quote).after x := by
  refine after_append_of_forall_mem (fun c hmem t ↦ after_string_cons ?_ t) x
  have hc : isMarkerChar c = true := isMarkerChar_of_mem_text hlabel (isNumber_ofNat index) hmem
  exact separates_of_isMarkerChar hquote hc

/-- A marker leaves the context that it is made for as it is, whatever follows. -/
theorem Context.after_forContext {ctx : Context} (hctx : ctx.Regular) (index : Nat) (x : Text) :
    ctx.after (forContext label index ctx ++ x) = ctx.after x := by
  cases ctx with
  | code =>
    -- the comment that is opened is closed again
    have hmarker : forContext label index .code ++ x =
        '/' :: '*' :: (label ++ [':'] ++ Text.ofNat index ++ '*' :: '/' :: x) := by
      simp [forContext, Marker.comment]
    rw [hmarker, Context.after, after_comment_label hlabel, Context.after]
  | comment =>
    have hmarker : forContext label index .comment ++ x =
        label ++ [':'] ++ Text.ofNat index ++ ':' :: x := by
      simp [forContext, bare]
    rw [hmarker, after_comment_label hlabel, after_comment_cons (by simp)]
  | string quote => exact after_string_comment hlabel hctx index x

/-- The first character of a marker completes no delimiter in the context that it is made for. -/
theorem Context.exists_separates_forContext {ctx : Context} (hctx : ctx.Regular) (index : Nat) :
    ∃ c l, forContext label index ctx = c :: l ∧ ctx.Separates c := by
  cases ctx with
  | code => exact ⟨'/', _, rfl, by simp [Separates]⟩
  | comment =>
    obtain ⟨c, l, rfl, hc⟩ := exists_label_cons hlabel
    refine ⟨c, _, rfl, ?_⟩
    rintro rfl
    exact absurd hc (by decide)
  | string quote =>
    refine ⟨'/', _, rfl, ?_, by decide, by decide⟩
    rcases hctx with rfl | rfl <;> decide

/-- Behind a text and the marker for it, reading goes on as it would behind the text. -/
theorem Context.after_append_forContext (u : Text) (index : Nat) (x : Text) :
    code.after (u ++ (forContext label index (code.after u) ++ x)) = (code.after u).after x := by
  have hregular : (code.after u).Regular := regular_code.after u
  obtain ⟨c, l, hmarker, hc⟩ := exists_separates_forContext hlabel hregular index
  calc code.after (u ++ (forContext label index (code.after u) ++ x))
      = (code.after u).after (forContext label index (code.after u) ++ x) := by
        rw [hmarker]
        exact after_append_cons regular_code hc (l ++ x)
    _ = (code.after u).after x := after_forContext hlabel hregular index x

/-! ## Reading up to a site -/

/-- A site among the slots behind a text stands behind a longer text, which is read to the context
that the literals lead to one by one. -/
theorem exists_of_mem_sitesFrom {u : Text} {index body i : Nat} {tail : List (Text × Text)}
    {site : Site}
    (hsite : (sitesFrom index (Text.size u) body
      (slots label (Context.code.after u) index tail))[i]? = some site) :
    ∃ v r, u ++ cssOf (slots label (Context.code.after u) index tail) =
        v ++ (forContext label (index + i) (Context.code.after v) ++ r) ∧
      Context.code.after v =
        ((tail.map Prod.snd).take i).foldl Context.after (Context.code.after u) ∧
      site.marker = ⟨Text.size v,
        Text.size v + Text.size (forContext label (index + i) (Context.code.after v))⟩ := by
  induction tail generalizing u index body i with
  | nil => simp [slots, sitesFrom] at hsite
  | cons p tail ih =>
    rw [slots, sitesFrom] at hsite
    cases i with
    | zero =>
      obtain rfl := Option.some.inj hsite
      refine ⟨u, p.2 ++ cssOf (slots label ((Context.code.after u).after p.2) (index + 1) tail), ?_,
        rfl, rfl⟩
      rw [slots, cssOf_cons]
      rfl
    | succ i =>
      -- the text in front now has the first marker and the literal behind it
      have hctx := Context.after_append_forContext hlabel u index p.2
      have hsize : Text.size (u ++ (forContext label index (Context.code.after u) ++ p.2)) =
          Text.size u + Text.size (forContext label index (Context.code.after u)) +
            Text.size p.2 := by
        rw [Text.size_append, Text.size_append, Nat.add_assoc]
      rw [List.getElem?_cons_succ] at hsite
      simp only at hsite
      rw [← hsize, ← hctx] at hsite
      obtain ⟨v, r, hcss, hafter, hmarker⟩ := ih hsite
      rw [Nat.add_right_comm, Nat.add_assoc] at hcss hmarker
      refine ⟨v, r, ?_, ?_, hmarker⟩
      · rw [← hcss, slots, cssOf_cons, hctx, List.append_assoc, List.append_assoc]
      · rw [hafter, hctx]
        rfl

end Labels

/-- **Markers are neutral.** At every site, the marker in the stylesheet is the one for the context
that the literals in front of it lead to one by one. In the stylesheet itself, read in one pass,
this context is reached both in front of the marker and behind it, and what follows is read from
there as if nothing stood in front of it. -/
theorem after_takeBytes_of_site {t : Template} {o : Options} (ho : o.validate = .ok ()) {i : Nat}
    {site : Site} (hsite : (encode t o).sites[i]? = some site) :
    Text.slice (encode t o).css site.marker =
        forContext (encode t o).table.label i (t.contextAt i) ∧
      Context.code.after (Text.takeBytes site.marker.start (encode t o).css) = t.contextAt i ∧
      Context.code.after (Text.takeBytes site.marker.stop (encode t o).css) = t.contextAt i ∧
      ∀ x, Context.code.after (Text.takeBytes site.marker.stop (encode t o).css ++ x) =
        (t.contextAt i).after x := by
  have hlabel : Options.isLabel (encode t o).table.label = true :=
    isLabel_chooseLabel ((Options.validate_eq_ok_iff o).1 ho).1 t.literals
  obtain ⟨v, r, hcss, hafter, hmarker⟩ := exists_of_mem_sitesFrom hlabel hsite
  rw [Nat.zero_add] at hcss hmarker
  replace hafter : Context.code.after v = t.contextAt i := hafter
  have hread := Context.after_append_forContext hlabel v i
  rw [hafter] at hcss hmarker hread
  replace hcss : (encode t o).css =
      v ++ (forContext (encode t o).table.label i (t.contextAt i) ++ r) := hcss
  have hstop : Text.takeBytes site.marker.stop (encode t o).css =
      v ++ forContext (encode t o).table.label i (t.contextAt i) := by
    rw [hmarker, hcss, ← List.append_assoc]
    exact (Text.size_append v _) ▸ Text.takeBytes_size_append _ _
  have hbehind : ∀ x, Context.code.after (Text.takeBytes site.marker.stop (encode t o).css ++ x) =
      (t.contextAt i).after x := by
    intro x
    rw [hstop, List.append_assoc, hread]
  refine ⟨?_, ?_, ?_, hbehind⟩
  · rw [hmarker]
    exact Text.StandsAt.slice_eq ⟨v, hcss, rfl⟩
  · rw [hmarker, hcss, Text.takeBytes_size_append, hafter]
  · simpa using hbehind []

/-- Literals that would make delimiters with each other: a slash and a star in code, a backslash and
a quote in a string, a star and a slash in a comment. The markers keep them apart. -/
theorem after_takeBytes_of_cut_delimiters : ∃ (t : Template) (s₀ s₁ s₂ : Site),
    t.literals = ["a/", "* \"\\", "\"/* *", "/ c"].map String.toList ∧
    (encode t {}).css =
      "a//*POSTCSS_LIT:0*/* \"\\/*POSTCSS_LIT:1*/\"/* *POSTCSS_LIT:2:/ c".toList ∧
    (encode t {}).sites = [s₀, s₁, s₂] ∧
    Context.code.after (Text.takeBytes s₀.marker.stop (encode t {}).css) = .code ∧
    Context.code.after (Text.takeBytes s₁.marker.stop (encode t {}).css) = .string '"' ∧
    Context.code.after (Text.takeBytes s₂.marker.stop (encode t {}).css) = .comment := by
  have hsites : (encode ⟨"a/".toList, [("x".toList, "* \"\\".toList),
      ("y".toList, "\"/* *".toList), ("z".toList, "/ c".toList)]⟩ {}).sites =
        [⟨0, ⟨2, 19⟩, ⟨2, 6⟩⟩, ⟨1, ⟨23, 40⟩, ⟨10, 14⟩⟩, ⟨2, ⟨45, 59⟩, ⟨19, 23⟩⟩] := by
    decide +kernel
  have hvalid : Options.validate {} = .ok () := by decide +kernel
  refine ⟨_, _, _, _, by decide +kernel, by decide +kernel, hsites, ?_, ?_, ?_⟩
  · exact (after_takeBytes_of_site hvalid (i := 0) (by rw [hsites]; rfl)).2.2.1
  · exact (after_takeBytes_of_site hvalid (i := 1) (by rw [hsites]; rfl)).2.2.1
  · exact (after_takeBytes_of_site hvalid (i := 2) (by rw [hsites]; rfl)).2.2.1

end Marker

end EmbeddedCss
