import EmbeddedCss.Proofs.Marker.Weave

/-! # How markers are matched

The label of a marker can be any text here: it may be empty, hold colons, digits or delimiters of
comments. So markers can overlap with each other and with the text around them. The rule is that the
leftmost marker counts, that a comment goes before a bare marker at the same place, and that the
search goes on behind the marker. The second part of it is never needed, since no two markers start
at the same place (`Starts.unique`).

The main statement is that this rule tells what every text is replaced by, for each way to look up a
number, effects included: the numbers are asked for from left to right, each of them once. Whether a
text is a single marker needs no rule, since such a text can be read in one way only. -/

namespace EmbeddedCss.Marker

/-! ## The rule -/

/-- A piece is a marker, with digits for a number. -/
def Piece.IsMarker (p : Piece) : Prop := ∃ digits, p.digits? = some digits ∧ IsNumber digits

/-- A marker stands at the start of a text. -/
def Starts (label : Text) (p : Piece) (s : Text) : Prop := p.IsMarker ∧ p.text label <+: s

/-- No marker starts in `l`, where `r` follows. -/
def NoneStartsIn (label l r : Text) : Prop :=
  ∀ u v, l = u ++ v → v ≠ [] → ∀ p, ¬ Starts label p (v ++ r)

/-- A text is cut at the leftmost markers: each of them comes with what stands in front of it, and
what is left behind the last one stands at the end. -/
inductive Leftmost (label : Text) : Text → List (Text × Piece) → Text → Prop
  | done {last : Text} : NoneStartsIn label last [] → Leftmost label last [] last
  /-- Where a bare marker counts, no comment that is a marker starts. -/
  | found {l r : Text} {p : Piece} {ms : List (Text × Piece)} {last : Text} :
      NoneStartsIn label l (p.text label ++ r) → p.IsMarker →
      (∀ digits digits', p = .bare digits →
        ¬ Starts label (.comment digits') (p.text label ++ r)) →
      Leftmost label r ms last → Leftmost label (l ++ (p.text label ++ r)) ((l, p) :: ms) last

/-- Pieces put together between the markers among them. -/
def atMarkers : List Piece → List (Text × Piece) × Text
  | [] => ([], [])
  | .char c :: ps =>
    match atMarkers ps with
    | ([], last) => ([], c :: last)
    | ((l, p) :: ms, last) => ((c :: l, p) :: ms, last)
  | p :: ps => (([], p) :: (atMarkers ps).1, (atMarkers ps).2)

theorem atMarkers_cons_of_isMarker {p : Piece} (hp : p.IsMarker) (ps : List Piece) :
    atMarkers (p :: ps) = (([], p) :: (atMarkers ps).1, (atMarkers ps).2) := by
  obtain ⟨digits, hdigits, -⟩ := hp
  cases p with
  | char c => cases hdigits
  | comment | bare => rfl

/-- Markers with what stands in front of them, where the answers replace in order those markers
whose numbers fit. A marker without an answer stays as it is. -/
def fill (label : Text) : List (Text × Piece) → List (Option Text) → Text
  | [], _ => []
  | (l, p) :: ms, answers =>
    if p.index?.isSome then
      l ++ answers.head?.join.getD (p.text label) ++ fill label ms answers.tail
    else l ++ p.text label ++ fill label ms answers

theorem Leftmost.text_eq {label s last : Text} {ms : List (Text × Piece)}
    (h : Leftmost label s ms last) :
    s = (ms.flatMap fun x ↦ x.1 ++ x.2.text label) ++ last := by
  induction h with
  | done => rfl
  | found _ _ _ _ ih =>
    rw [List.flatMap_cons, List.append_assoc, ← ih, List.append_assoc]

/-! ## Markers at the start of a text -/

/-- A marker is read where it starts. -/
theorem markerAt_of_starts {label s : Text} {p : Piece} (h : Starts label p s) :
    ∃ rest, markerAt label s = some (p, rest) := by
  obtain ⟨⟨digits, hdigits, hd⟩, rest, rfl⟩ := h
  exact ⟨rest, markerAt_text hdigits hd rest⟩

/-- Whatever is read stands at the start of the text. -/
theorem starts_of_markerAt {label s rest : Text} {p : Piece}
    (h : markerAt label s = some (p, rest)) : Starts label p s :=
  ⟨isNumber_of_markerAt h, rest, (text_of_markerAt h).1⟩

/-- Two markers do not start at the same place, so the rule for such places is never needed. -/
theorem Starts.unique {label s : Text} {p q : Piece} (hp : Starts label p s)
    (hq : Starts label q s) : p = q := by
  obtain ⟨rest, hp⟩ := markerAt_of_starts hp
  obtain ⟨rest', hq⟩ := markerAt_of_starts hq
  rw [hp] at hq
  exact (Prod.mk.inj (Option.some.inj hq)).1

/-- Nothing is read exactly where no marker starts. -/
theorem markerAt_eq_none_iff {label s : Text} :
    markerAt label s = none ↔ ∀ p, ¬ Starts label p s := by
  constructor
  · intro hnone p hp
    obtain ⟨rest, hsome⟩ := markerAt_of_starts hp
    rw [hnone] at hsome
    cases hsome
  · intro hnot
    cases h : markerAt label s with
    | none => rfl
    | some m => exact absurd (starts_of_markerAt h) (hnot m.1)

/-! ## Every text is cut by the rule -/

theorem noneStartsIn_nil (label r : Text) : NoneStartsIn label [] r := by
  intro u v huv hv
  exact absurd (List.append_eq_nil_iff.1 huv.symm).2 hv

theorem NoneStartsIn.cons {label l r : Text} {c : Char} (h : NoneStartsIn label l r)
    (hc : markerAt label (c :: (l ++ r)) = none) : NoneStartsIn label (c :: l) r := by
  intro u v huv hv
  cases u with
  | nil =>
    obtain rfl : c :: l = v := huv
    exact markerAt_eq_none_iff.1 hc
  | cons d u =>
    obtain ⟨rfl, rfl⟩ := List.cons.inj huv
    exact h u v rfl hv

/-- A marker counts where nothing starts in front of it. -/
theorem Leftmost.cons {label l r last : Text} {p : Piece} {ms : List (Text × Piece)}
    (hl : NoneStartsIn label l (p.text label ++ r)) (hp : p.IsMarker)
    (h : Leftmost label r ms last) :
    Leftmost label (l ++ (p.text label ++ r)) ((l, p) :: ms) last := by
  refine .found hl hp ?_ h
  intro digits digits' hbare hcomment
  cases hbare.symm.trans (Starts.unique ⟨hp, List.prefix_append _ r⟩ hcomment)

/-- The rule applies to every text, and cuts it between its pieces. -/
theorem leftmost_atMarkers (label s : Text) :
    Leftmost label s (atMarkers (pieces label s)).1 (atMarkers (pieces label s)).2 := by
  fun_induction pieces label s with
  | case1 => exact .done (noneStartsIn_nil label [])
  | case2 c t p rest h ih =>
    have hp := isNumber_of_markerAt h
    rw [atMarkers_cons_of_isMarker hp, ← (text_of_markerAt h).1]
    exact .cons (noneStartsIn_nil label _) hp ih
  | case3 c t h ih =>
    -- the character goes in front of what stands before the next marker
    rw [atMarkers]
    revert ih
    cases atMarkers (pieces label t) with
    | mk ms last =>
      intro ih
      cases ih with
      | done hnone => exact .done (hnone.cons (by rwa [List.append_nil]))
      | found hnone hp _ hr => exact .cons (hnone.cons h) hp hr

/-- The characters in which no marker starts are pieces of their own. -/
theorem NoneStartsIn.pieces_append {label l r : Text} (h : NoneStartsIn label l r) :
    pieces label (l ++ r) = l.map .char ++ pieces label r := by
  induction l with
  | nil => rfl
  | cons c l ih =>
    have hc : markerAt label (c :: (l ++ r)) = none :=
      markerAt_eq_none_iff.2 (h [] (c :: l) rfl (by simp))
    rw [List.cons_append, pieces_cons_of_none hc, ih fun u v huv ↦ h (c :: u) v (by rw [huv]; rfl)]
    rfl

/-- The rule gives the pieces of a text. -/
theorem Leftmost.pieces_eq {label s last : Text} {ms : List (Text × Piece)}
    (h : Leftmost label s ms last) :
    pieces label s = (ms.flatMap fun x ↦ x.1.map .char ++ [x.2]) ++ last.map .char := by
  induction h with
  | @done last hnone =>
    have hpieces := hnone.pieces_append
    have hnil : pieces label [] = [] := by rw [pieces]
    rwa [List.append_nil, hnil, List.append_nil] at hpieces
  | @found l r p ms last hnone hp _ _ ih =>
    obtain ⟨digits, hdigits, hd⟩ := hp
    rw [hnone.pieces_append, pieces_of_markerAt (markerAt_text hdigits hd r), ih]
    simp

/-! ## Replacing -/

section Effects

variable {m : Type → Type u} [Monad m] [LawfulMonad m] (label : Text)
  (resolve : Nat → m (Option Text))

/-- Characters stay as they are, and nothing is asked for them. -/
theorem mapM_replaceM_map_char (l : Text) :
    (l.map Piece.char).mapM (Piece.replaceM label resolve) = pure (l.map fun c ↦ [c]) := by
  induction l with
  | nil => rfl
  | cons c l ih =>
    have hc : Piece.replaceM label resolve (.char c) = pure [c] := rfl
    rw [List.map_cons, List.mapM_cons, hc, ih, pure_bind, pure_bind, List.map_cons]

theorem flatten_mapM_replaceM_map_char_append (l : Text) (ps : List Piece) :
    List.flatten <$> (l.map Piece.char ++ ps).mapM (Piece.replaceM label resolve) =
      (l ++ ·) <$> List.flatten <$> ps.mapM (Piece.replaceM label resolve) := by
  have hl : (l.map fun c ↦ [c]).flatten = l :=
    List.flatMap_def.symm.trans (List.flatMap_singleton' l)
  rw [List.mapM_append, mapM_replaceM_map_char]
  simp [hl]

theorem flatten_mapM_replaceM_cons (p : Piece) (ps : List Piece) :
    List.flatten <$> (p :: ps).mapM (Piece.replaceM label resolve) =
      (do
        let shown ← p.replaceM label resolve
        (shown ++ ·) <$> List.flatten <$> ps.mapM (Piece.replaceM label resolve)) := by
  simp

/-- The markers are asked for in order, each one once if its number fits, and the answers are put in
their places. -/
theorem flatten_mapM_replaceM (ms : List (Text × Piece)) (last : Text) :
    List.flatten <$> ((ms.flatMap fun x : Text × Piece ↦ x.1.map Piece.char ++ [x.2]) ++
        last.map Piece.char).mapM (Piece.replaceM label resolve) =
      (do
        let answers ← (ms.filterMap fun x : Text × Piece ↦ x.2.index?).mapM resolve
        return fill label ms answers ++ last) := by
  induction ms with
  | nil =>
    have h := flatten_mapM_replaceM_map_char_append label resolve last []
    simpa [fill] using h
  | cons x ms ih =>
    obtain ⟨l, p⟩ := x
    rw [List.flatMap_cons, List.append_assoc, List.append_assoc, List.singleton_append,
      flatten_mapM_replaceM_map_char_append, flatten_mapM_replaceM_cons, ih]
    cases hindex : p.index? with
    | none => simp [Piece.replaceM, hindex, fill]
    | some i => simp [Piece.replaceM, hindex, fill]

end Effects

/-! ## Texts that are one marker -/

/-- A text is cut into one comment that is a marker exactly if it is written like one. -/
theorem pieces_eq_comment_iff {label s digits : Text} :
    pieces label s = [.comment digits] ↔
      IsNumber digits ∧ s = (Piece.comment digits).text label := by
  constructor
  · intro hpieces
    have htext : s = (Piece.comment digits).text label := by
      rw [← flatMap_text_pieces label s, hpieces, List.flatMap_singleton]
    refine ⟨?_, htext⟩
    cases s with
    | nil => rw [pieces] at hpieces; cases hpieces
    | cons c t =>
      cases hmarker : markerAt label (c :: t) with
      | none =>
        rw [pieces_cons_of_none hmarker] at hpieces
        cases hpieces
      | some found =>
        obtain ⟨p, rest⟩ := found
        obtain ⟨digits', hdigits, hd⟩ := isNumber_of_markerAt hmarker
        rw [pieces_of_markerAt hmarker] at hpieces
        obtain ⟨rfl, -⟩ := List.cons.inj hpieces
        obtain rfl : digits = digits' := Option.some.inj hdigits
        exact hd
  · rintro ⟨hd, rfl⟩
    have hmarker :
        markerAt label ((Piece.comment digits).text label) = some (.comment digits, []) :=
      List.append_nil ((Piece.comment digits).text label) ▸ markerAt_comment [] hd
    rw [pieces_of_markerAt hmarker, pieces]

theorem index?_eq_some_iff {digits : Text} {n : Nat} :
    index? digits = some n ↔ value digits = n ∧ n < UInt64.size := by
  rw [index?, Option.ite_none_right_eq_some, Option.some.injEq]
  constructor
  · rintro ⟨h, rfl⟩
    exact ⟨rfl, h⟩
  · rintro ⟨rfl, h⟩
    exact ⟨h, rfl⟩

/-- The number of a text that is one comment is the one its digits denote. -/
theorem indexOf?_eq_some_iff {label s : Text} {n : Nat} :
    indexOf? label s = some n ↔
      ∃ digits, (IsNumber digits ∧ s = (Piece.comment digits).text label) ∧
        value digits = n ∧ n < UInt64.size := by
  simp only [← pieces_eq_comment_iff, ← index?_eq_some_iff]
  unfold indexOf?
  split
  · rename_i digits h
    simp [h]
  · rename_i h
    constructor
    · intro hn
      cases hn
    · rintro ⟨digits, hpieces, -⟩
      exact absurd hpieces (h digits)

/-- The number of an interpolation is read off its marker. -/
theorem indexOf?_comment (label : Text) {n : Nat} (h : n < UInt64.size) :
    indexOf? label (comment label n) = some n :=
  indexOf?_eq_some_iff.2 ⟨Text.ofNat n, ⟨isNumber_ofNat n, rfl⟩, value_ofNat n, h⟩

/-! ## The rule and what it gives -/

/-- Every text is cut by the rule, and what it is replaced by is what the rule tells. The numbers
that fit are asked for in order, each one once, whatever effects that has. A text as a whole has a
number exactly if it is a comment with digits for it, as the marker of an interpolation is. -/
theorem replaceAllM_of_leftmost {m : Type → Type u} [Monad m] [LawfulMonad m] (label : Text)
    (resolve : Nat → m (Option Text)) (s : Text) :
    (∃ ms last, Leftmost label s ms last) ∧
      (∀ ms last, Leftmost label s ms last →
        s = (ms.flatMap fun x ↦ x.1 ++ x.2.text label) ++ last ∧
        replaceAllM label resolve s = do
          let answers ← (ms.filterMap fun x ↦ x.2.index?).mapM resolve
          return fill label ms answers ++ last) ∧
      (∀ n, indexOf? label s = some n ↔
        ∃ digits, (IsNumber digits ∧ s = (Piece.comment digits).text label) ∧
          value digits = n ∧ n < UInt64.size) ∧
      ∀ n < UInt64.size, indexOf? label (comment label n) = some n := by
  refine ⟨⟨_, _, leftmost_atMarkers label s⟩, fun ms last h ↦ ⟨h.text_eq, ?_⟩,
    fun n ↦ indexOf?_eq_some_iff, fun n ↦ indexOf?_comment label⟩
  rw [replaceAllM, h.pieces_eq, bind_pure_comp, flatten_mapM_replaceM]

/-- Without a label, a comment is followed by a marker whose closing colon the next one would need,
by one inside of a comment that is no marker, and by one whose number does not fit. -/
theorem replaceAllM_of_leftmost_overlapping :
    let s := "/*:07*/:1:2:/*:3:*/:99999999999999999999:".toList
    let ask : Nat → StateM (List Nat) (Option Text) := fun i ↦ do
      modify (· ++ [i])
      return if i = 1 then none else some "x".toList
    Leftmost [] s [([], .comment "07".toList), ([], .bare "1".toList),
        ("2:/*".toList, .bare "3".toList), ("*/".toList, .bare "99999999999999999999".toList)] [] ∧
      ((replaceAllM [] ask s).run []).run =
        ("x:1:2:/*x*/:99999999999999999999:".toList, [7, 1, 3]) ∧
      indexOf? [] "/*:07*/".toList = some 7 ∧
      indexOf? [] (comment [] 18446744073709551615) = some 18446744073709551615 := by
  intro s ask
  have hleftmost := leftmost_atMarkers [] s
  have hcut : atMarkers (pieces [] s) = ([([], .comment "07".toList), ([], .bare "1".toList),
      ("2:/*".toList, .bare "3".toList),
      ("*/".toList, .bare "99999999999999999999".toList)], []) := by
    decide +kernel
  rw [hcut] at hleftmost
  refine ⟨hleftmost, ?_, ?_, (replaceAllM_of_leftmost [] ask s).2.2.2 _ (by decide)⟩
  · rw [((replaceAllM_of_leftmost [] ask s).2.1 _ _ hleftmost).2]
    decide +kernel
  · have hdigits : IsNumber ['0', '7'] := ⟨by simp, by simp⟩
    exact ((replaceAllM_of_leftmost [] ask "/*:07*/".toList).2.2.1 7).2
      ⟨['0', '7'], ⟨hdigits, by decide +kernel⟩, by decide, by decide⟩

/-! ## Replacing with a state -/

section State

variable {σ : Type} (label : Text) (resolve : Nat → Option Text) (note : σ → Nat → σ)

/-- Looking up a number, with a note of it in the state. -/
def resolveNoting (i : Nat) : StateM σ (Option Text) := do
  modify (note · i)
  return resolve i

theorem run_mapM_replaceM (ps : List Piece) (state : σ) :
    (ps.mapM (Piece.replaceM label (resolveNoting resolve note))).run state =
      pure (ps.map fun p ↦ (p.index?.bind resolve).getD (p.text label),
        (ps.filterMap Piece.index?).foldl note state) := by
  induction ps generalizing state with
  | nil => rfl
  | cons p ps ih =>
    cases hindex : p.index? with
    | none => simp [Piece.replaceM, hindex, ih]
    | some i => simp [Piece.replaceM, resolveNoting, hindex, ih]

/-- What comes out does not depend on the notes, and the notes are those of the numbers in order. -/
theorem run_replaceAllM (s : Text) (state : σ) :
    (replaceAllM label (resolveNoting resolve note) s).run state =
      (replaceAll label resolve s, (indices label s).foldl note state) := by
  rw [replaceAllM, replaceAll, indices, StateT.run_bind, run_mapM_replaceM, List.flatMap_def]
  rfl

end State

/-- Putting interpolations back and keeping the tally is one pass over a chunk of text. -/
theorem restore_tallyChunk_eq_run (t : Table) (tally : Tally) (chunk : Text) :
    (restore (some t) chunk, tallyChunk (some t) tally chunk) =
      (replaceAllM t.label (resolveNoting t.resolve (Tally.count t)) chunk).run tally :=
  (run_replaceAllM t.label t.resolve (Tally.count t) chunk tally).symm

end EmbeddedCss.Marker
