import EmbeddedCss.Proofs.Marker.Sites
import EmbeddedCss.Proofs.Marker.Uncommented

/-! # The stylesheet of a template as a woven text

The stylesheet that stands for a template is woven of the characters of its literals and of one
marker for each interpolation. The label was chosen so that these pieces are legible. What they are
restored to depends on the entries that the table still has. -/

namespace EmbeddedCss

/-- A template body with `shown i code` in place of interpolation number `i`. -/
def Template.textWith (shown : Nat → Text → Text) (t : Template) : Text :=
  t.head ++ (t.tail.mapIdx fun i p ↦ shown i p.1 ++ p.2).flatten

theorem Template.textWith_interpolation (t : Template) :
    t.textWith (fun _ ↦ interpolation) = t.text := by
  have hmap : (t.tail.mapIdx fun _ p ↦ interpolation p.1 ++ p.2) =
      t.tail.map fun p ↦ interpolation p.1 ++ p.2 := by
    refine List.ext_getElem? fun i ↦ ?_
    rw [List.getElem?_mapIdx, List.getElem?_map]
  rw [textWith, text, hmap]

namespace Marker

/-! ## Pieces of a template -/

/-- The marker for a context, as a piece. -/
def Context.piece (index : Nat) : Context → Piece
  | .comment => .bare (Text.ofNat index)
  | .code | .string _ => .comment (Text.ofNat index)

@[simp] theorem Context.digits?_piece (index : Nat) (ctx : Context) :
    (ctx.piece index).digits? = some (Text.ofNat index) := by
  cases ctx <;> rfl

@[simp] theorem Context.text_piece (label : Text) (index : Nat) (ctx : Context) :
    (ctx.piece index).text label = forContext label index ctx := by
  cases ctx <;> rfl

theorem Context.index?_piece {index : Nat} (h : index < UInt64.size) (ctx : Context) :
    (ctx.piece index).index? = some index := by
  simp [Piece.index?, Marker.index?, h]

/-- The pieces of a tail of a template, numbered from `index`, that is reached in context `ctx`. -/
def weave (ctx : Context) (index : Nat) : List (Text × Text) → List Piece
  | [] => []
  | (_, literal) :: rest =>
    ctx.piece index :: (literal.map .char ++ weave (ctx.after literal) (index + 1) rest)

/-- The pieces of the stylesheet of a template. -/
def templatePieces (t : Template) : List Piece :=
  t.head.map .char ++ weave (Context.code.after t.head) 0 t.tail

theorem textOf_weave (label : Text) (ctx : Context) (index : Nat) (tail : List (Text × Text)) :
    textOf label (weave ctx index tail) =
      ((slots label ctx index tail).map fun s ↦ s.marker ++ s.literal).flatten := by
  induction tail generalizing ctx index with
  | nil => rfl
  | cons p tail ih => simp [weave, slots, ih]

/-- The stylesheet of a template is woven of its pieces. -/
theorem css_encode (t : Template) (o : Options) :
    (encode t o).css = textOf (encode t o).table.label (templatePieces t) := by
  rw [templatePieces, textOf_append, textOf_map_char, textOf_weave]
  rfl

/-! ## The pieces are legible -/

/-- The markers of a tail are numbered from `index` on. -/
theorem exists_piece_of_mem_weave {ctx : Context} {index : Nat} {tail : List (Text × Text)}
    {p : Piece} (hp : p ∈ weave ctx index tail) (hmarker : p.digits?.isSome = true) :
    ∃ i c, i < tail.length ∧ p = Context.piece (index + i) c := by
  induction tail generalizing ctx index with
  | nil => simp [weave] at hp
  | cons q tail ih =>
    rcases List.mem_cons.1 hp with rfl | hp
    · exact ⟨0, ctx, by simp, rfl⟩
    · rcases List.mem_append.1 hp with hp | hp
      · obtain ⟨c, -, rfl⟩ := List.mem_map.1 hp
        simp [Piece.digits?] at hmarker
      · obtain ⟨i, c, hi, rfl⟩ := ih hp
        exact ⟨i + 1, c, by simpa using hi, by rw [Nat.add_assoc, Nat.add_comm 1]⟩

/-- The markers of a template are numbered like its interpolations. -/
theorem exists_piece_of_mem_templatePieces {t : Template} {p : Piece}
    (hp : p ∈ templatePieces t) (hmarker : p.digits?.isSome = true) :
    ∃ i c, i < t.tail.length ∧ p = Context.piece i c := by
  rcases List.mem_append.1 hp with hp | hp
  · obtain ⟨c, -, rfl⟩ := List.mem_map.1 hp
    simp [Piece.digits?] at hmarker
  · simpa using exists_piece_of_mem_weave hp hmarker

/-- What stands behind a literal is a marker. -/
theorem weave_ne_char_cons (ctx : Context) (index : Nat) (tail : List (Text × Text)) (c : Char)
    (ps : List Piece) : weave ctx index tail ≠ .char c :: ps := by
  intro h
  cases tail with
  | nil => simp [weave] at h
  | cons p tail =>
    have hp : ctx.piece index = .char c := (List.cons_eq_cons.1 h).1
    have hd := ctx.digits?_piece index
    rw [hp] at hd
    simp [Piece.digits?] at hd

/-- Characters in a row that stand around the end of a literal do not reach over the marker behind
it. -/
theorem infix_of_map_char_infix {x l : Text} {ps : List Piece}
    (hps : ∀ c qs, ps ≠ .char c :: qs) (h : x.map .char <:+: l.map .char ++ ps) :
    x <:+: l ∨ x.map .char <:+: ps := by
  have hinj : ∀ {a b : Text}, a.map Piece.char = b.map Piece.char → a = b :=
    fun h ↦ List.map_injective_iff.2 (fun _ _ hc ↦ Piece.char.inj hc) h
  rcases List.infix_append_iff.1 h with h | h | ⟨a, b, hab, ha, hb⟩
  · obtain ⟨y, hy, he⟩ := List.infix_map_iff.1 h
    exact .inl (hinj he ▸ hy)
  · exact .inr h
  · -- the part of `x` behind the cut is empty, since it would start with a marker
    obtain ⟨a, b, rfl, rfl, rfl⟩ := List.map_eq_append_iff.1 hab
    cases b with
    | nil =>
      obtain ⟨y, hy, he⟩ := List.infix_map_iff.1 ha.isInfix
      exact .inl (by simpa [hinj he] using hy)
    | cons c b =>
      obtain ⟨qs, hqs⟩ := hb
      exact absurd hqs.symm (hps c _)

/-- Characters in a row among the pieces of a tail stand in one of its literals. -/
theorem exists_infix_of_weave {c : Char} {x : Text} {ctx : Context} {index : Nat}
    {tail : List (Text × Text)} (h : (c :: x).map .char <:+: weave ctx index tail) :
    ∃ l ∈ tail.map Prod.snd, c :: x <:+: l := by
  induction tail generalizing ctx index with
  | nil => simp [weave] at h
  | cons p tail ih =>
    rcases List.infix_cons_iff.1 h with ⟨qs, hqs⟩ | h
    · exact absurd hqs.symm (weave_ne_char_cons ctx index (p :: tail) c _)
    · rcases infix_of_map_char_infix (weave_ne_char_cons _ _ tail) h with h | h
      · exact ⟨p.2, List.mem_cons_self .., h⟩
      · obtain ⟨l, hl, hx⟩ := ih h
        exact ⟨l, List.mem_cons_of_mem _ hl, hx⟩

/-- Characters in a row among the pieces of a template stand in one of its literals. -/
theorem exists_infix_of_templatePieces {t : Template} {x : Text} (hx : x ≠ [])
    (h : x.map .char <:+: templatePieces t) : ∃ l ∈ t.literals, x <:+: l := by
  rcases infix_of_map_char_infix (weave_ne_char_cons _ _ t.tail) h with h | h
  · exact ⟨t.head, List.mem_cons_self .., h⟩
  · obtain ⟨c, x, rfl⟩ := List.exists_cons_of_ne_nil hx
    obtain ⟨l, hl, hx⟩ := exists_infix_of_weave h
    exact ⟨l, List.mem_cons_of_mem _ hl, hx⟩

/-- The pieces of a template are legible. -/
theorem legible_templatePieces (t : Template) {o : Options}
    (ho : Options.isLabel o.label = true) :
    Legible (encode t o).table.label (templatePieces t) where
  isLabel := isLabel_chooseLabel ho t.literals
  isNumber p hp digits hd := by
    obtain ⟨i, c, -, rfl⟩ := exists_piece_of_mem_templatePieces hp (Option.isSome_of_mem hd)
    obtain rfl : Text.ofNat i = digits := by simpa using hd
    exact isNumber_ofNat i
  fresh h := by
    have htaken := (isTaken_iff _ _).2 (exists_infix_of_templatePieces (by simp) h)
    exact absurd htaken (Bool.eq_false_iff.1 (isTaken_chooseLabel o.label t.literals))

/-! ## Where the markers stand -/

theorem markerSpans_map_char_append (label : Text) (offset : Nat) (l : Text) (ps : List Piece) :
    markerSpans label offset (l.map .char ++ ps) =
      markerSpans label (offset + Text.size l) ps := by
  induction l generalizing offset with
  | nil => rfl
  | cons c l ih =>
    have hc : Text.size ((Piece.char c).text label) = c.utf8Size := rfl
    rw [List.map_cons, List.cons_append, markerSpans, ih, hc, Nat.add_assoc]
    rfl

theorem marker_sitesFrom (label : Text) (ctx : Context) (index css body : Nat)
    (tail : List (Text × Text)) :
    (sitesFrom index css body (slots label ctx index tail)).map Site.marker =
      markerSpans label css (weave ctx index tail) := by
  induction tail generalizing ctx index css body with
  | nil => rfl
  | cons p tail ih =>
    rw [slots, sitesFrom, List.map_cons, ih, weave, markerSpans, markerSpans_map_char_append]
    simp

/-- The sites of a template give the spans of its markers. -/
theorem marker_encode (t : Template) (o : Options) :
    (encode t o).sites.map Site.marker =
      markerSpans (encode t o).table.label 0 (templatePieces t) := by
  rw [templatePieces, markerSpans_map_char_append, Nat.zero_add]
  exact marker_sitesFrom ..

/-! ## What the pieces are restored to -/

/-- A tail of a template is restored interpolation by interpolation: each is shown as the table has
it, or else as its marker. -/
theorem restoredText_weave {label : Text} {resolve : Nat → Option Text}
    {shown : Nat → Text → Text} {ctx : Context} {index : Nat} {tail : List (Text × Text)}
    (hlen : index + tail.length ≤ UInt64.size)
    (hshown : ∀ i s, (slots label ctx index tail)[i]? = some s →
      (resolve (index + i)).getD s.marker = shown (index + i) s.code) :
    restoredText label resolve (weave ctx index tail) =
      (tail.mapIdx fun i p ↦ shown (index + i) p.1 ++ p.2).flatten := by
  induction tail generalizing ctx index with
  | nil => rfl
  | cons p tail ih =>
    rw [List.length_cons] at hlen
    have hsucc : ∀ i, index + 1 + i = index + (i + 1) := fun i ↦ by omega
    have htail := @ih (ctx.after p.2) (index + 1) (by omega)
      (fun i s hs ↦ by rw [hsucc]; exact hshown (i + 1) s hs)
    simp only [hsucc] at htail
    rw [weave, restoredText_cons, restoredText_append, restoredText_map_char, htail,
      Context.index?_piece (by omega), Option.bind_some, Context.text_piece,
      List.mapIdx_cons, List.flatten_cons, List.append_assoc]
    exact congrArg (· ++ _) (hshown 0 _ rfl)

/-- A template is restored interpolation by interpolation. -/
theorem restoredText_of_slots {label : Text} {resolve : Nat → Option Text}
    {shown : Nat → Text → Text} {t : Template} (hlen : t.tail.length ≤ UInt64.size)
    (hshown : ∀ i s, (slots label (Context.code.after t.head) 0 t.tail)[i]? = some s →
      (resolve i).getD s.marker = shown i s.code) :
    restoredText label resolve (templatePieces t) = t.textWith shown := by
  have htail : restoredText label resolve (weave (Context.code.after t.head) 0 t.tail) =
      (t.tail.mapIdx fun i p ↦ shown (0 + i) p.1 ++ p.2).flatten :=
    restoredText_weave (by simpa using hlen) (by simpa using hshown)
  simp only [Nat.zero_add] at htail
  rw [templatePieces, restoredText_append, restoredText_map_char, htail]
  rfl

/-- The slots of a tail have its interpolations, each with the marker for a context. Only contexts
of a class `P` come up if literals lead from one of them to another. -/
theorem exists_context_of_slots {label : Text} {P : Context → Prop} {ctx : Context} {index : Nat}
    {tail : List (Text × Text)} (hctx : P ctx)
    (hafter : ∀ ctx, P ctx → ∀ l ∈ tail.map Prod.snd, P (ctx.after l)) {i : Nat} {s : Slot}
    (hs : (slots label ctx index tail)[i]? = some s) :
    ∃ c, P c ∧ s.marker = forContext label (index + i) c ∧ tail[i]? = some (s.code, s.literal) := by
  induction tail generalizing ctx index i with
  | nil => simp [slots] at hs
  | cons p tail ih =>
    cases i with
    | zero =>
      obtain rfl : Slot.mk (forContext label index ctx) p.1 p.2 = s := by simpa [slots] using hs
      exact ⟨ctx, hctx, rfl, rfl⟩
    | succ i =>
      rw [slots, List.getElem?_cons_succ] at hs
      obtain ⟨c, hc, hmarker, hp⟩ := ih (hafter ctx hctx p.2 (List.mem_cons_self ..))
        (fun c hc l hl ↦ hafter c hc l (List.mem_cons_of_mem _ hl)) hs
      exact ⟨c, hc, by rw [hmarker, Nat.add_right_comm, Nat.add_assoc], hp⟩

/-- A template is restored interpolation by interpolation. Only contexts of a class `P` come up if
literals lead from one of them to another. -/
theorem restoredText_templatePieces {label : Text} {resolve : Nat → Option Text}
    {shown : Nat → Text → Text} {P : Context → Prop} {t : Template} (hcode : P .code)
    (hafter : ∀ ctx, P ctx → ∀ l ∈ t.literals, P (ctx.after l))
    (hlen : t.tail.length ≤ UInt64.size)
    (hshown : ∀ i p, t.tail[i]? = some p → ∀ ctx, P ctx →
      (resolve i).getD (forContext label i ctx) = shown i p.1) :
    restoredText label resolve (templatePieces t) = t.textWith shown := by
  refine restoredText_of_slots hlen fun i s hs ↦ ?_
  obtain ⟨c, hc, hmarker, hp⟩ := exists_context_of_slots
    (hafter _ hcode _ (List.mem_cons_self ..))
    (fun ctx hctx l hl ↦ hafter ctx hctx l (List.mem_cons_of_mem _ hl)) hs
  rw [hmarker, Nat.zero_add]
  exact hshown i _ hp c hc

/-! ## Templates without comments -/

/-- Outside of a comment, no comment is reached over a text in which none starts. -/
theorem Context.after_ne_comment {ctx : Context} {l : Text} (hctx : ctx ≠ .comment)
    (hl : ¬ ['/', '*'] <:+: l) : ctx.after l ≠ .comment := by
  have htail : ∀ {c : Char} {t : Text}, ¬ ['/', '*'] <:+: c :: t → ¬ ['/', '*'] <:+: t :=
    fun h ht ↦ h (List.infix_cons ht)
  fun_induction Context.after ctx l with
  | case1 => exact hctx
  | case2 t ih => exact absurd (List.prefix_append ['/', '*'] t).isInfix hl
  | case3 c t _ _ ih => exact ih (by simp) (htail hl)
  | case4 c t _ _ ih => exact ih (by simp) (htail hl)
  | case5 t ih => exact absurd rfl hctx
  | case6 c t _ ih => exact absurd rfl hctx
  | case7 quote c t ih => exact ih (by simp) (htail (htail hl))
  | case8 quote c t _ _ ih => exact ih (by simp) (htail hl)
  | case9 quote c t _ _ ih => exact ih (by simp) (htail hl)

theorem ne_bare_of_mem_weave {ctx : Context} {index : Nat} {tail : List (Text × Text)}
    (hctx : ctx ≠ .comment) (hl : ∀ l ∈ tail.map Prod.snd, ¬ ['/', '*'] <:+: l) {p : Piece}
    (hp : p ∈ weave ctx index tail) (digits : Text) : p ≠ .bare digits := by
  induction tail generalizing ctx index with
  | nil => simp [weave] at hp
  | cons q tail ih =>
    rcases List.mem_cons.1 hp with rfl | hp
    · cases ctx with
      | comment => exact absurd rfl hctx
      | code => simp [Context.piece]
      | string quote => simp [Context.piece]
    · rcases List.mem_append.1 hp with hp | hp
      · obtain ⟨c, -, rfl⟩ := List.mem_map.1 hp
        simp
      · exact ih (Context.after_ne_comment hctx (hl q.2 (List.mem_cons_self ..)))
          (fun l h ↦ hl l (List.mem_cons_of_mem _ h)) hp

/-- In a template in whose literals no comment starts, every marker is a comment. -/
theorem ne_bare_of_mem_templatePieces {t : Template}
    (hl : ∀ l ∈ t.literals, ¬ ['/', '*'] <:+: l) {p : Piece} (hp : p ∈ templatePieces t)
    (digits : Text) : p ≠ .bare digits := by
  rcases List.mem_append.1 hp with hp | hp
  · obtain ⟨c, -, rfl⟩ := List.mem_map.1 hp
    simp
  · refine ne_bare_of_mem_weave ?_ (fun l h ↦ hl l (List.mem_cons_of_mem _ h)) hp digits
    exact Context.after_ne_comment (by simp) (hl t.head (List.mem_cons_self ..))

/-- In a template in whose literals no comment starts, the markers are the only comments. -/
theorem uncommented_templatePieces {t : Template} {o : Options}
    (ho : Options.isLabel o.label = true) (hl : ∀ l ∈ t.literals, ¬ ['/', '*'] <:+: l) :
    Uncommented (encode t o).table.label (templatePieces t) where
  toLegible := legible_templatePieces t ho
  ne_bare p hp := ne_bare_of_mem_templatePieces hl hp
  noComment h := by
    obtain ⟨l, hmem, hinfix⟩ := exists_infix_of_templatePieces (x := ['/', '*']) (by simp) h
    exact hl l hmem hinfix

/-! ## Tables -/

/-- The table of a template has each of its interpolations. -/
theorem get?_encode (t : Template) (o : Options) (i : Nat) :
    (encode t o).table.get? i = (t.tail[i]?).map fun p ↦ Text.padded p.1 := by
  have hentries : (encode t o).table.entries =
      (t.tail.map Prod.fst).map fun code ↦ some (Text.padded code) := by
    rw [← code_slots (encode t o).table.label (Context.code.after t.head) 0, List.map_map]
    rfl
  rw [Table.get?, hentries, List.getElem?_map, List.getElem?_map]
  cases t.tail[i]? <;> rfl

/-- Whatever is taken out of a table is gone, and the rest stays. -/
theorem get?_foldl_remove (table : Table) (removed : List Nat) (i : Nat) :
    (removed.foldl Table.remove table).get? i = if i ∈ removed then none else table.get? i := by
  induction removed generalizing table with
  | nil => rfl
  | cons j removed ih =>
    rw [List.foldl_cons, ih]
    by_cases hij : j = i
    · subst hij
      simp
    · simp [hij, Ne.symm hij]

theorem label_foldl_remove (table : Table) (removed : List Nat) :
    (removed.foldl Table.remove table).label = table.label := by
  induction removed generalizing table with
  | nil => rfl
  | cons j removed ih => exact ih (table.remove j)

theorem resolve_encode {t : Template} {o : Options} (i : Nat) :
    (encode t o).table.resolve i = (t.tail[i]?).map fun p ↦ Template.interpolation p.1 := by
  rw [Table.resolve, get?_encode, Option.map_map]
  simp [Function.comp_def]

/-- What has been taken out of the table is not put back. -/
theorem resolve_foldl_remove {t : Template} {o : Options} (removed : List Nat) (i : Nat) :
    (removed.foldl Table.remove (encode t o).table).resolve i =
      if i ∈ removed then none else (encode t o).table.resolve i := by
  rw [Table.resolve, get?_foldl_remove]
  split <;> rfl

end Marker

end EmbeddedCss
