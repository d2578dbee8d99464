import EmbeddedCss.Proofs.Marker.Sites

/-! # From offsets in the stylesheet to offsets in the template body

Stylesheet and template body run through the same literals, with markers in the one and
interpolations in the other between them, which may be longer or shorter. The map between them goes
along the sites. It is shown to be monotone, to send each literal to itself, each marker to the start
of its interpolation, and the end to the end. All of this is by induction on the slots, where the map
starts with the literal in front of them. -/

namespace EmbeddedCss.Marker

/-! ## Subtractions -/

/-- The difference of two numbers, if it is one. -/
def sub? (m n : Nat) : Option Nat := if n ≤ m then some (m - n) else none

/-- The map of offsets with every subtraction checked. -/
def bodyOffsetFrom? (css body : Nat) (offset : Nat) : List Site → Option Nat
  | [] => (sub? offset css).map (body + ·)
  | s :: rest =>
    if offset < s.marker.start then (sub? offset css).map (body + ·)
    else if offset < s.marker.stop then some s.interpolation.start
    else bodyOffsetFrom? s.marker.stop s.interpolation.stop offset rest

/-- The map of offsets never subtracts a number from a smaller one. -/
theorem bodyOffsetFrom?_eq {css offset : Nat} (body : Nat) (sites : List Site) (h : css ≤ offset) :
    bodyOffsetFrom? css body offset sites = some (bodyOffsetFrom css body offset sites) := by
  induction sites generalizing css body with
  | nil => simp [bodyOffsetFrom?, bodyOffsetFrom, sub?, h]
  | cons s rest ih =>
    rw [bodyOffsetFrom?, bodyOffsetFrom]
    split
    · simp [sub?, h]
    · split
      · rfl
      · exact ih _ (by omega)

/-! ## Along the slots -/

section Slots

variable (index : Nat) (ss : List Slot)

/-- No marker starts before the slots do. -/
theorem le_start_of_mem_sitesFrom {css body : Nat} {site : Site}
    (h : site ∈ sitesFrom index css body ss) : css ≤ site.marker.start := by
  induction ss generalizing index css body with
  | nil => simp [sitesFrom] at h
  | cons s ss ih =>
    rcases List.mem_cons.1 h with rfl | h
    · exact Nat.le_refl css
    · have := ih _ h
      simp only at this
      omega

variable (css body gap : Nat)

theorem le_bodyOffsetFrom (offset : Nat) :
    body ≤ bodyOffsetFrom css body offset (sitesFrom index (css + gap) (body + gap) ss) := by
  induction ss generalizing index css body gap with
  | nil => exact Nat.le_add_right ..
  | cons s ss ih =>
    rw [sitesFrom, bodyOffsetFrom]
    split
    · exact Nat.le_add_right ..
    · split
      · exact Nat.le_add_right ..
      · refine Nat.le_trans ?_ (ih ..)
        simp only [Nat.add_assoc, Nat.le_add_right]

/-- Offsets that come later in the stylesheet do not come earlier in the template body. -/
theorem bodyOffsetFrom_mono {m n : Nat} (h : m ≤ n) :
    bodyOffsetFrom css body m (sitesFrom index (css + gap) (body + gap) ss) ≤
      bodyOffsetFrom css body n (sitesFrom index (css + gap) (body + gap) ss) := by
  induction ss generalizing index css body gap with
  | nil =>
    simp only [sitesFrom, bodyOffsetFrom]
    omega
  | cons s ss ih =>
    simp only [sitesFrom, bodyOffsetFrom]
    have hlater := le_bodyOffsetFrom (index + 1) ss (css + gap + Text.size s.marker)
      (body + gap + Text.size (Template.interpolation s.code)) (Text.size s.literal) n
    have hboth := ih (index + 1) (css + gap + Text.size s.marker)
      (body + gap + Text.size (Template.interpolation s.code)) (Text.size s.literal)
    (repeat' split) <;> omega

/-- Offsets past the end of the stylesheet go as far past the end of the template body. -/
theorem bodyOffsetFrom_past_end (n : Nat) :
    bodyOffsetFrom css body (css + gap + Text.size (cssOf ss) + n)
      (sitesFrom index (css + gap) (body + gap) ss) = body + gap + Text.size (bodyOf ss) + n := by
  induction ss generalizing index css body gap with
  | nil =>
    simp only [sitesFrom, bodyOffsetFrom, cssOf_nil, bodyOf_nil, Text.size_nil]
    omega
  | cons s ss ih =>
    have hrest := ih (index + 1) (css + gap + Text.size s.marker)
      (body + gap + Text.size (Template.interpolation s.code)) (Text.size s.literal)
    rw [sitesFrom, bodyOffsetFrom, if_neg, if_neg]
    · simpa [Nat.add_assoc] using hrest
    · simp only [cssOf_cons, Text.size_append]
      omega
    · simp only [cssOf_cons, Text.size_append]
      omega

/-- Offsets inside a marker go to the start of its interpolation. -/
theorem bodyOffsetFrom_of_contains {offset i : Nat} {site : Site}
    (hsite : (sitesFrom index (css + gap) (body + gap) ss)[i]? = some site)
    (h : site.marker.contains offset = true) :
    bodyOffsetFrom css body offset (sitesFrom index (css + gap) (body + gap) ss) =
      site.interpolation.start := by
  rw [Span.contains_iff] at h
  induction ss generalizing index css body gap i with
  | nil => simp [sitesFrom] at hsite
  | cons s ss ih =>
    rw [sitesFrom, bodyOffsetFrom]
    cases i with
    | zero =>
      obtain rfl := Option.some.inj hsite
      rw [if_neg (by omega), if_pos h.2]
    | succ i =>
      have htail := hsite
      rw [sitesFrom, List.getElem?_cons_succ] at htail
      have hle := le_start_of_mem_sitesFrom _ _ (List.mem_of_getElem? htail)
      simp only at hle ⊢
      rw [if_neg (by omega), if_neg (by omega)]
      exact ih _ _ _ _ htail

end Slots

/-! ## Literals -/

/-- Where literal number `k` starts in a text that has some spans between its literals: at the first
offset, or where the span in front of it stops. -/
def literalStart (first : Nat) (spans : List Span) : Nat → Nat
  | 0 => first
  | k + 1 => (spans[k]?).elim 0 Span.stop

/-- Offsets outside of every marker lie in a literal, and go to the same place in that literal. -/
theorem bodyOffsetFrom_of_literal (index : Nat) (ss : List Slot) (css body : Nat) (l : Text)
    {offset : Nat} (hlow : css ≤ offset) (hhigh : offset < css + Text.size l + Text.size (cssOf ss))
    (hout : ∀ site ∈ sitesFrom index (css + Text.size l) (body + Text.size l) ss,
      site.marker.contains offset = false) :
    ∃ k l' j, (l :: ss.map Slot.literal)[k]? = some l' ∧ j < Text.size l' ∧
      offset = literalStart css
        ((sitesFrom index (css + Text.size l) (body + Text.size l) ss).map Site.marker) k + j ∧
      bodyOffsetFrom css body offset
          (sitesFrom index (css + Text.size l) (body + Text.size l) ss) =
        literalStart body ((sitesFrom index (css + Text.size l) (body + Text.size l) ss).map
          Site.interpolation) k + j := by
  induction ss generalizing index css body l with
  | nil =>
    refine ⟨0, l, offset - css, rfl, ?_, ?_, rfl⟩
    · rw [cssOf_nil, Text.size_nil] at hhigh
      omega
    · simp only [literalStart]
      omega
  | cons s ss ih =>
    by_cases hfirst : offset < css + Text.size l
    · refine ⟨0, l, offset - css, rfl, by omega, ?_, ?_⟩
      · simp only [literalStart]
        omega
      · rw [sitesFrom, bodyOffsetFrom, if_pos hfirst]
        rfl
    · -- behind the first marker, the map starts anew with the literal that follows
      have hmarker : ¬ offset < css + Text.size l + Text.size s.marker := by
        intro hlt
        have := hout _ (List.mem_cons_self ..)
        simp [Span.contains] at this
        omega
      simp only [cssOf_cons, Text.size_append] at hhigh
      obtain ⟨k, l', j, hl', hj, hoffset, hbody⟩ := ih (index + 1)
        (css + Text.size l + Text.size s.marker)
        (body + Text.size l + Text.size (Template.interpolation s.code)) s.literal (by omega)
        (by omega) fun site hsite ↦ hout site (List.mem_cons_of_mem _ hsite)
      refine ⟨k + 1, l', j, hl', hj, ?_, ?_⟩
      · cases k <;> exact hoffset
      · rw [sitesFrom, bodyOffsetFrom, if_neg hfirst, if_neg hmarker, hbody]
        cases k <;> rfl

/-! ## The offsets of a template -/

section Encode

variable (t : Template) (o : Options)

theorem value_locate (offset : Nat) (tail : List (Text × Text)) :
    (Template.locate offset tail).map Located.value = tail.map Prod.fst := by
  induction tail generalizing offset with
  | nil => rfl
  | cons p tail ih => rw [Template.locate, List.map_cons, ih, List.map_cons]

theorem interpolation_sitesFrom (label : Text) (ctx : Context) (index css body : Nat)
    (tail : List (Text × Text)) :
    (sitesFrom index css body (slots label ctx index tail)).map Site.interpolation =
      (Template.locate body tail).map Located.span := by
  induction tail generalizing ctx index css body with
  | nil => rfl
  | cons p tail ih => rw [slots, sitesFrom, List.map_cons, ih, Template.locate, List.map_cons]

/-- The sites of a template have the spans of its interpolations. -/
theorem interpolation_encode :
    (encode t o).sites.map Site.interpolation = t.interpolations.map Located.span :=
  interpolation_sitesFrom ..

/-- The sites of a template come behind its first literal, which starts at offset zero. -/
theorem sites_encode_eq_zero_add : (encode t o).sites =
    sitesFrom 0 (0 + Text.size t.head) (0 + Text.size t.head) (templateSlots t o) := by
  rw [Nat.zero_add]
  rfl

/-- The map of offsets starts with the first literal of the template. -/
theorem bodyOffset_encode (offset : Nat) : bodyOffset (encode t o).sites offset =
    bodyOffsetFrom 0 0 offset
      (sitesFrom 0 (0 + Text.size t.head) (0 + Text.size t.head) (templateSlots t o)) := by
  rw [← sites_encode_eq_zero_add]
  rfl

theorem bodyOffset_mono {m n : Nat} (h : m ≤ n) :
    bodyOffset (encode t o).sites m ≤ bodyOffset (encode t o).sites n := by
  rw [bodyOffset_encode, bodyOffset_encode]
  exact bodyOffsetFrom_mono _ _ _ _ _ h

theorem bodyOffset_past_end (n : Nat) :
    bodyOffset (encode t o).sites (Text.size (encode t o).css + n) = Text.size t.text + n := by
  have h := bodyOffsetFrom_past_end 0 (templateSlots t o) 0 0 (Text.size t.head) n
  rw [← bodyOffset_encode, Nat.zero_add, ← Text.size_append, ← Text.size_append] at h
  rw [text_eq_bodyOf t o]
  exact h

/-- The end of the stylesheet goes to the end of the template body. -/
theorem bodyOffset_end :
    bodyOffset (encode t o).sites (Text.size (encode t o).css) = Text.size t.text :=
  bodyOffset_past_end t o 0

variable {t o}

theorem bodyOffset_of_contains {offset i : Nat} {site : Site}
    (hsite : (encode t o).sites[i]? = some site) (h : site.marker.contains offset = true) :
    bodyOffset (encode t o).sites offset = site.interpolation.start := by
  rw [bodyOffset_encode]
  rw [sites_encode_eq_zero_add] at hsite
  exact bodyOffsetFrom_of_contains _ _ _ _ _ hsite h

/-- Outside of the markers, an offset and its image lie in the same literal at the same place. -/
theorem bodyOffset_of_literal {offset : Nat} (h : offset < Text.size (encode t o).css)
    (hout : ∀ site ∈ (encode t o).sites, site.marker.contains offset = false) :
    ∃ k l j, t.literals[k]? = some l ∧ j < Text.size l ∧
      offset = literalStart 0 ((encode t o).sites.map Site.marker) k + j ∧
      bodyOffset (encode t o).sites offset =
        literalStart 0 (t.interpolations.map Located.span) k + j := by
  have hliterals : t.literals = t.head :: (templateSlots t o).map Slot.literal := by
    rw [templateSlots, literal_slots]
    rfl
  rw [bodyOffset_encode, ← interpolation_encode t o, hliterals]
  rw [css_encode_eq, Text.size_append] at h
  rw [sites_encode_eq_zero_add] at hout ⊢
  exact bodyOffsetFrom_of_literal 0 _ 0 0 t.head (Nat.zero_le _) (by omega) hout

/-- A literal stands in the stylesheet and in the template body where the spans say. -/
theorem standsAt_literalStart {k : Nat} {l : Text} (h : t.literals[k]? = some l) :
    (∃ r, Text.StandsAt (encode t o).css
      (literalStart 0 ((encode t o).sites.map Site.marker) k) (l ++ r)) ∧
    ∃ r, Text.StandsAt t.text (literalStart 0 (t.interpolations.map Located.span) k) (l ++ r) := by
  cases k with
  | zero =>
    obtain rfl : t.head = l := Option.some.inj h
    exact ⟨⟨_, Text.standsAt_zero _⟩, ⟨_, Text.standsAt_zero _⟩⟩
  | succ k =>
    have hslot : ((templateSlots t o).map Slot.literal)[k]? = some l := by
      rw [templateSlots, literal_slots]
      exact h
    rw [List.getElem?_map, Option.map_eq_some_iff] at hslot
    obtain ⟨s, hs, rfl⟩ := hslot
    obtain ⟨site, hsite, hat⟩ := exists_site_encode t o hs
    obtain ⟨r, hr⟩ := hat.inCss
    obtain ⟨r', hr'⟩ := hat.inBody
    have hmarker := hr.advance
    have hinterpolation := hr'.advance
    rw [← hat.marker] at hmarker
    rw [← hat.interpolation] at hinterpolation
    rw [← interpolation_encode t o]
    simp only [literalStart, List.getElem?_map, hsite, Option.map_some, Option.elim_some]
    exact ⟨⟨r, hmarker⟩, ⟨r', hinterpolation⟩⟩

/-- A site stands where an interpolation of the template stands, and it is the site of a slot with
that interpolation. -/
theorem exists_interpolation_of_site {i : Nat} {site : Site}
    (h : (encode t o).sites[i]? = some site) :
    ∃ l s, t.interpolations[i]? = some l ∧ l.span = site.interpolation ∧ l.value = s.code ∧
      IsSite (encode t o).css t.text s site := by
  obtain ⟨hi, -⟩ := List.getElem?_eq_some_iff.1 h
  rw [sites_encode_eq, length_sitesFrom] at hi
  obtain ⟨site', hsite', hs⟩ := exists_site_encode t o (List.getElem?_eq_getElem hi)
  obtain rfl : site = site' := Option.some.inj (h.symm.trans hsite')
  have hspan := congrArg (·[i]?) (interpolation_encode t o)
  have hvalue := congrArg (·[i]?) <| (value_locate (Text.size t.head) t.tail).trans
    (code_slots (encode t o).table.label (Context.code.after t.head) 0 t.tail).symm
  simp only [List.getElem?_map, h, Option.map_some] at hspan hvalue
  obtain ⟨l, hl, hspan⟩ := Option.map_eq_some_iff.1 hspan.symm
  refine ⟨l, _, hl, hspan, ?_, hs⟩
  change (t.interpolations[i]?).map Located.value = ((templateSlots t o)[i]?).map Slot.code at hvalue
  rw [hl, List.getElem?_eq_getElem hi] at hvalue
  exact Option.some.inj hvalue

end Encode

end EmbeddedCss.Marker
