import EmbeddedCss.Diagnostic
import EmbeddedCss.Proofs.Text.Place
import Mathlib.Data.List.Basic
import Mathlib.Data.List.Induction

/-! # What an excerpt points at

An excerpt shows the line of the source in which a complaint starts, and below it a line of carets.
Three counts have to agree for the first caret to stand below the character complained about: the
position counts characters behind line feeds, the lines of a text are cut at line feeds and at
carriage returns in front of them, and both lines of the excerpt start with a gutter. The first two
agree on every text. The gutters do not: the gutter of the source line grows with the number of the
line, the gutter of the carets does not, and so the carets are right in the first 999 lines only. -/

namespace EmbeddedCss

/-! ## Lines -/

namespace Text

/-- `l` is a line of a text, with `u` in front of it and `v` behind it. A line starts at the start of
the text or behind a line feed. It ends at the next line feed, or at a carriage return right in front
of that, or at the end of the text. -/
structure IsLine (u l v : Text) : Prop where
  start : u = [] ∨ u.getLast? = some '\n'
  notMem : '\n' ∉ l
  stop : v = [] ∨ (∃ r, v = '\r' :: '\n' :: r) ∨ (∃ r, v = '\n' :: r) ∧ l.getLast? ≠ some '\r'

/-- A character, in front of what follows it, belongs to the end of a line. -/
def EndsLine (c : Char) (post : Text) : Prop := c = '\n' ∨ c = '\r' ∧ post.head? = some '\n'

/-- A text goes on to the end of the line it starts in. -/
theorem exists_line_stop (c : Char) (post : Text) (hc : ¬ EndsLine c post) :
    ∃ b v, post = b ++ v ∧ '\n' ∉ c :: b ∧
      (v = [] ∨ (∃ r, v = '\r' :: '\n' :: r) ∨
        (∃ r, v = '\n' :: r) ∧ (c :: b).getLast? ≠ some '\r') := by
  induction post generalizing c with
  | nil =>
    refine ⟨[], [], rfl, ?_, .inl rfl⟩
    intro hmem
    exact hc (.inl (List.mem_singleton.1 hmem).symm)
  | cons d post ih =>
    have hne : '\n' ≠ c := fun h ↦ hc (.inl h.symm)
    by_cases hd : EndsLine d post
    · -- the line ends here
      refine ⟨[], d :: post, rfl, by simpa using hne, .inr ?_⟩
      rcases hd with rfl | ⟨rfl, hpost⟩
      · refine .inr ⟨⟨post, rfl⟩, ?_⟩
        intro hlast
        exact hc (.inr ⟨Option.some.inj hlast, rfl⟩)
      · obtain ⟨r, rfl⟩ := List.head?_eq_some_iff.1 hpost
        exact .inl ⟨r, rfl⟩
    · obtain ⟨b, v, rfl, hmem, hstop⟩ := ih d hd
      refine ⟨d :: b, v, rfl, ?_, ?_⟩
      · exact List.not_mem_cons_of_ne_of_not_mem hne hmem
      · rwa [List.getLast?_cons_cons]

/-- A text goes back to the start of the line it ends in. -/
theorem exists_line_start (pre : Text) :
    ∃ u a, pre = u ++ a ∧ '\n' ∉ a ∧ (u = [] ∨ u.getLast? = some '\n') := by
  induction pre using List.reverseRecOn with
  | nil => exact ⟨[], [], rfl, List.not_mem_nil, .inl rfl⟩
  | append_singleton pre c ih =>
    by_cases hc : c = '\n'
    · subst hc
      exact ⟨pre ++ ['\n'], [], (List.append_nil _).symm, List.not_mem_nil, .inr (by simp)⟩
    · obtain ⟨u, a, rfl, ha, hu⟩ := ih
      refine ⟨u, a ++ [c], List.append_assoc .., ?_, hu⟩
      simp [ha, Ne.symm hc]

/-- Behind a line feed the lines are those of the rest. -/
theorem lines_append {u : Text} (hu : u = [] ∨ u.getLast? = some '\n') (s : Text) :
    lines (u ++ s) = lines u ++ lines s ∧ (lines u).length = u.count '\n' := by
  induction u with
  | nil => exact ⟨rfl, rfl⟩
  | cons c u ih =>
    rcases hu with hu | hu
    · cases hu
    cases u with
    | nil =>
      obtain rfl : c = '\n' := by simpa using hu
      exact ⟨rfl, rfl⟩
    | cons d u =>
      rw [List.getLast?_cons_cons] at hu
      obtain ⟨happend, hlength⟩ := ih (.inr hu)
      have hmem : '\n' ∈ d :: u := List.mem_of_getLast? hu
      rw [List.cons_append, lines, lines, happend]
      by_cases hfeed : c = '\n'
      · rw [if_pos hfeed, if_pos hfeed, hfeed, List.count_cons_self, List.length_cons, hlength]
        exact ⟨rfl, rfl⟩
      · rw [if_neg hfeed, if_neg hfeed, List.count_cons_of_ne hfeed]
        rw [List.cons_append, List.head?_cons, List.head?_cons]
        by_cases hreturn : c = '\r' ∧ some d = some '\n'
        · rw [if_pos hreturn, if_pos hreturn]
          exact ⟨rfl, hlength⟩
        · rw [if_neg hreturn, if_neg hreturn]
          -- the text behind has a line to put the character in front of
          cases hlines : lines (d :: u) with
          | nil =>
            rw [hlines, List.length_nil] at hlength
            exact absurd hlength (Nat.ne_of_lt (List.count_pos_iff.2 hmem))
          | cons l ls =>
            rw [hlines, List.length_cons] at hlength
            exact ⟨rfl, hlength⟩

/-- A line is the first of the lines of the text that it starts. -/
theorem exists_lines_eq_cons {l v : Text} (hne : l ≠ []) (hmem : '\n' ∉ l)
    (hstop : v = [] ∨ (∃ r, v = '\r' :: '\n' :: r) ∨
      (∃ r, v = '\n' :: r) ∧ l.getLast? ≠ some '\r') : ∃ ls, lines (l ++ v) = l :: ls := by
  induction l with
  | nil => exact absurd rfl hne
  | cons c l ih =>
    have hfeed : c ≠ '\n' := fun h ↦ hmem (h ▸ List.mem_cons_self ..)
    cases l with
    | nil =>
      rcases hstop with rfl | ⟨r, rfl⟩ | ⟨⟨r, rfl⟩, hlast⟩
      · exact ⟨[], by simp [lines, hfeed]⟩
      · exact ⟨lines r, by simp [lines, hfeed]⟩
      · have hreturn : c ≠ '\r' := by simpa using hlast
        exact ⟨lines r, by simp [lines, hfeed, hreturn]⟩
    | cons d l =>
      rw [List.getLast?_cons_cons] at hstop
      obtain ⟨ls, hls⟩ := ih (List.cons_ne_nil _ _) (fun h ↦ hmem (List.mem_cons_of_mem _ h)) hstop
      have hd : d ≠ '\n' := by
        rintro rfl
        exact hmem (List.mem_cons_of_mem _ (List.mem_cons_self ..))
      refine ⟨ls, ?_⟩
      rw [List.cons_append, lines, if_neg hfeed, if_neg (by simp [hd]), hls]

end Text

/-! ## Positions -/

namespace Position

/-- Behind a line feed a line starts. -/
theorem foldl_advance_of_start {u : Text} (hu : u = [] ∨ u.getLast? = some '\n') :
    u.foldl advance ⟨1, 1⟩ = ⟨u.count '\n' + 1, 1⟩ := by
  have hline : ∀ (s : Text) (p : Position), (s.foldl advance p).line = p.line + s.count '\n' := by
    intro s
    induction s with
    | nil => exact fun p ↦ rfl
    | cons c s ih =>
      intro p
      rw [List.foldl_cons, ih, advance]
      by_cases hc : c = '\n'
      · rw [if_pos hc, hc, List.count_cons_self]
        exact Nat.add_right_comm ..
      · rw [if_neg hc, List.count_cons_of_ne hc]
  rcases hu with rfl | hu
  · rfl
  · obtain ⟨s, rfl⟩ := List.getLast?_eq_some_iff.1 hu
    ext
    · rw [hline, Nat.add_comm]
    · rw [List.foldl_append]
      rfl

/-- Within a line the columns count characters. -/
theorem foldl_advance_of_notMem {a : Text} (ha : '\n' ∉ a) (p : Position) :
    a.foldl advance p = ⟨p.line, p.column + a.length⟩ := by
  induction a generalizing p with
  | nil => rfl
  | cons c a ih =>
    have hc : c ≠ '\n' := fun h ↦ ha (h ▸ List.mem_cons_self ..)
    rw [List.foldl_cons, ih (fun h ↦ ha (List.mem_cons_of_mem _ h)), advance, if_neg hc]
    exact Position.ext rfl (Nat.succ_add_eq_add_succ p.column a.length)

end Position

/-! ## Excerpts -/

/-- The character `c` stands at an offset of a text, in a line that is `a` in front of it and `b`
behind it. -/
structure Text.InLine (source : Text) (offset : Nat) (u a : Text) (c : Char) (b v : Text) :
    Prop where
  eq : source = u ++ (a ++ c :: b) ++ v
  offset_eq : Text.size (u ++ a) = offset
  line : Text.IsLine u (a ++ c :: b) v

/-- A character that ends no line stands in one. -/
theorem Text.exists_inLine {source post : Text} {offset : Nat} {c : Char}
    (hc : source.StandsAt offset (c :: post)) (hline : ¬ Text.EndsLine c post) :
    ∃ u a b v, source.InLine offset u a c b v := by
  obtain ⟨pre, rfl, hoffset⟩ := hc
  obtain ⟨u, a, rfl, ha, hstart⟩ := Text.exists_line_start pre
  obtain ⟨b, v, rfl, hb, hstop⟩ := Text.exists_line_stop c post hline
  refine ⟨u, a, b, v, by simp, hoffset, hstart, ?_, ?_⟩
  · rw [List.mem_append]
    exact not_or.2 ⟨ha, hb⟩
  · rwa [List.getLast?_append_of_ne_nil _ (List.cons_ne_nil c b)]

namespace Diagnostic

variable (d : Diagnostic) (source : Text)

/-- The line of an excerpt that shows a line of the source. -/
def shownLine : Text :=
  let line := (Position.ofOffset source d.span.start).line
  gutter line ++ " | ".toList ++ sourceLine source line

/-- The line of an excerpt that has the carets. -/
def pointerLine : Text :=
  "    | ".toList ++ d.pointer (Position.ofOffset source d.span.start).column

/-- What stands in an excerpt above the line of the source. -/
def heading (name : Option Text) : Text :=
  let place := Position.ofOffset source d.span.start
  "Error: ".toList ++ d.message ++ "\n --> ".toList ++ (name.elim [] (· ++ [':'])) ++
    Text.ofNat place.line ++ [':'] ++ Text.ofNat place.column ++ "\n  |".toList

/-- The carets stand in the line right below that of the source, and only a hint comes after them. -/
theorem excerpt_eq (name : Option Text) : d.excerpt source name =
    d.heading source name ++ '\n' :: d.shownLine source ++ '\n' :: d.pointerLine source ++
      d.hint.elim [] ("\n  = hint: ".toList ++ ·) := by
  have hshown : "\n  |\n".toList = "\n  |".toList ++ ['\n'] := rfl
  have hpointer : "\n    | ".toList = ['\n'] ++ "    | ".toList := rfl
  change _ = d.heading source name ++ (['\n'] ++ d.shownLine source) ++
    (['\n'] ++ d.pointerLine source) ++ _
  unfold excerpt heading shownLine pointerLine
  simp only [hshown, hpointer, List.append_assoc]

/-- The excerpt shows the line of a character, behind a gutter, and the first of the carets below it
stands in the column of the character. -/
def PointsAt (a : Text) (c : Char) (b : Text) : Prop :=
  ∃ gutter, d.shownLine source = gutter ++ (a ++ c :: b) ∧ '^' ∈ d.pointerLine source ∧
    (d.pointerLine source).idxOf '^' = gutter.length + a.length

variable {d source} {u a b v : Text} {c : Char}

/-- The position of a character is the number of its line and the characters in front of it. -/
theorem ofOffset_of_inLine (h : source.InLine d.span.start u a c b v) :
    Position.ofOffset source d.span.start = ⟨u.count '\n' + 1, a.length + 1⟩ := by
  have ha : '\n' ∉ a := fun hmem ↦ h.line.notMem (List.mem_append_left _ hmem)
  have hsource : source = (u ++ a) ++ (c :: b ++ v) := by
    rw [h.eq]
    simp
  rw [← h.offset_eq, hsource, Position.ofOffset, Position.locate_append, List.foldl_append,
    Position.foldl_advance_of_start h.line.start, Position.foldl_advance_of_notMem ha,
    Nat.add_comm 1]

/-- The line of the source that an excerpt shows is the one of the character. -/
theorem shownLine_eq (h : source.InLine d.span.start u a c b v) :
    d.shownLine source = gutter (u.count '\n' + 1) ++ " | ".toList ++ (a ++ c :: b) := by
  obtain ⟨ls, hls⟩ := Text.exists_lines_eq_cons (by simp) h.line.notMem h.line.stop
  obtain ⟨happend, hlength⟩ := Text.lines_append h.line.start ((a ++ c :: b) ++ v)
  have hlines : Text.lines source = Text.lines u ++ (a ++ c :: b) :: ls := by
    rw [h.eq, List.append_assoc, happend, hls]
  have hline : sourceLine source (u.count '\n' + 1) = a ++ c :: b := by
    rw [sourceLine, hlines, Nat.add_sub_cancel, ← hlength, List.getElem?_append_right (Nat.le_refl _),
      Nat.sub_self]
    rfl
  rw [shownLine, ofOffset_of_inLine h, hline]

/-- The first caret stands six columns behind the characters in front of the complaint. -/
theorem idxOf_pointerLine (h : source.InLine d.span.start u a c b v) :
    '^' ∈ d.pointerLine source ∧ (d.pointerLine source).idxOf '^' = 6 + a.length := by
  have hcarets : ∃ k, List.replicate (max d.span.length 1) '^' = '^' :: List.replicate k '^' :=
    ⟨max d.span.length 1 - 1, by
      rw [← List.replicate_succ, Nat.sub_add_cancel (Nat.le_max_right _ _)]⟩
  obtain ⟨k, hk⟩ := hcarets
  have hpointer : d.pointerLine source =
      ("    | ".toList ++ List.replicate a.length ' ') ++ '^' :: List.replicate k '^' := by
    unfold pointerLine pointer
    rw [ofOffset_of_inLine h, hk]
    exact (List.append_assoc ..).symm
  have hnot : '^' ∉ "    | ".toList ++ List.replicate a.length ' ' := by
    simp
  rw [hpointer]
  refine ⟨by simp, ?_⟩
  rw [List.idxOf_append_of_notMem hnot, List.idxOf_cons_self, List.length_append,
    List.length_replicate]
  rfl

theorem length_gutter (n : Nat) : (gutter n).length = max 3 (Text.ofNat n).length := by
  rw [gutter, List.length_append, List.length_replicate]
  omega

/-- The gutter of the source line has the width of the other one in the first 999 lines. -/
theorem length_gutter_eq_iff (n : Nat) : (gutter n).length = 3 ↔ n < 1000 := by
  have hdigits : (Text.ofNat n).length ≤ 3 ↔ n < 10 ^ 3 :=
    Nat.length_toDigits_le_iff (by decide) (by decide)
  rw [length_gutter, ← show (10 : Nat) ^ 3 = 1000 from rfl, ← hdigits]
  omega

/-- The first caret stands below the character exactly in the first 999 lines. -/
theorem pointsAt_iff (h : source.InLine d.span.start u a c b v) :
    d.PointsAt source a c b ↔ u.count '\n' + 1 < 1000 := by
  obtain ⟨hmem, hidx⟩ := idxOf_pointerLine h
  rw [← length_gutter_eq_iff]
  constructor
  · rintro ⟨g, hg, -, hg'⟩
    rw [shownLine_eq h] at hg
    have hlength := congrArg List.length (List.append_cancel_right hg)
    rw [List.length_append] at hlength
    change _ + 3 = _ at hlength
    omega
  · intro hwidth
    refine ⟨_, shownLine_eq h, hmem, ?_⟩
    rw [hidx, List.length_append, hwidth]
    rfl

/-- A line of an excerpt has no line feed of its own. -/
theorem notMem_lines (h : source.InLine d.span.start u a c b v) :
    '\n' ∉ d.shownLine source ∧ '\n' ∉ d.pointerLine source := by
  have hgutter : '\n' ∉ gutter (u.count '\n' + 1) := by
    intro hmem
    rcases List.mem_append.1 hmem with hmem | hmem
    · cases (List.mem_replicate.1 hmem).2
    · exact absurd (Nat.isDigit_of_mem_toDigits (by decide) (by decide) hmem) (by decide)
  constructor
  · rw [shownLine_eq h, List.mem_append, List.mem_append]
    exact not_or.2 ⟨not_or.2 ⟨hgutter, by decide⟩, h.line.notMem⟩
  · unfold pointerLine pointer
    simp

/-- **What an excerpt points at.** Where a complaint starts at a character that ends no line, the
excerpt shows the line of that character behind its number, and right below it the line of the
carets. The first caret stands in the column of the character exactly if the line is one of the first
999: from then on the number takes more room than the gutter of the carets has for it. -/
theorem pointsAt_iff_of_standsAt (d : Diagnostic) {source post : Text} {c : Char}
    (hc : source.StandsAt d.span.start (c :: post)) (hline : ¬ Text.EndsLine c post) :
    ∃ u a b v, source.InLine d.span.start u a c b v ∧
      (∀ name, d.excerpt source name = d.heading source name ++
        '\n' :: d.shownLine source ++ '\n' :: d.pointerLine source ++
          d.hint.elim [] ("\n  = hint: ".toList ++ ·)) ∧
      ('\n' ∉ d.shownLine source ∧ '\n' ∉ d.pointerLine source) ∧
      d.shownLine source = gutter (u.count '\n' + 1) ++ " | ".toList ++ (a ++ c :: b) ∧
      (d.PointsAt source a c b ↔ u.count '\n' + 1 < 1000) := by
  obtain ⟨u, a, b, v, h⟩ := Text.exists_inLine hc hline
  exact ⟨u, a, b, v, h, d.excerpt_eq source, notMem_lines h, shownLine_eq h, pointsAt_iff h⟩

/-- A complaint in the second line of a text, behind a character of two bytes and in front of a line
end of two characters. -/
theorem pointsAt_second_line :
    Text.StandsAt "a\r\né\x7d\r\n".toList 5 "\x7d\r\n".toList ∧ ¬ Text.EndsLine '}' "\r\n".toList ∧
      ∃ u a b v, Text.InLine "a\r\né\x7d\r\n".toList 5 u a '}' b v ∧
        Diagnostic.PointsAt ⟨⟨5, 6⟩, "x".toList, none⟩ "a\r\né\x7d\r\n".toList a '}' b := by
  have hc : Text.StandsAt "a\r\né\x7d\r\n".toList 5 "\x7d\r\n".toList :=
    ⟨"a\r\né".toList, by decide, by decide⟩
  have hline : ¬ Text.EndsLine '}' "\r\n".toList := by simp [Text.EndsLine]
  obtain ⟨u, a, b, v, h, -, -, -, hiff⟩ :=
    pointsAt_iff_of_standsAt ⟨⟨5, 6⟩, "x".toList, none⟩ hc hline
  have hcount : u.count '\n' ≤ 7 := by
    have hlength := congrArg List.length h.eq
    change 7 = _ at hlength
    rw [List.length_append, List.length_append] at hlength
    exact Nat.le_trans List.count_le_length (by omega)
  exact ⟨hc, hline, u, a, b, v, h, hiff.2 (by omega)⟩

/-- In line 1000 the first caret does not stand below the character. -/
theorem not_pointsAt_line_1000 :
    Text.StandsAt (List.replicate 999 '\n' ++ ['x']) 999 ['x'] ∧ ¬ Text.EndsLine 'x' [] ∧
      ¬ ∃ u a b v, Text.InLine (List.replicate 999 '\n' ++ ['x']) 999 u a 'x' b v ∧
        Diagnostic.PointsAt ⟨⟨999, 1000⟩, "x".toList, none⟩
          (List.replicate 999 '\n' ++ ['x']) a 'x' b := by
  have hsize : ∀ n, Text.size (List.replicate n '\n') = n := by
    intro n
    induction n with
    | zero => rfl
    | succ n ih =>
      rw [List.replicate_succ, Text.size_cons, ih]
      exact Nat.add_comm 1 n
  refine ⟨⟨_, rfl, hsize 999⟩, by simp [Text.EndsLine], ?_⟩
  rintro ⟨u, a, b, v, h, hpoints⟩
  have hlt := (pointsAt_iff (d := ⟨⟨999, 1000⟩, "x".toList, none⟩) h).1 hpoints
  -- the line starts right in front of the character, behind all line feeds
  have hstands : Text.StandsAt (List.replicate 999 '\n' ++ ['x']) 999 ('x' :: (b ++ v)) :=
    ⟨u ++ a, by rw [h.eq]; simp, h.offset_eq⟩
  have hend := hstands.unique ⟨_, rfl, hsize 999⟩
  have hfront : List.replicate 999 '\n' = u ++ a := by
    have heq : List.replicate 999 '\n' ++ ['x'] = (u ++ a) ++ 'x' :: (b ++ v) := by
      rw [h.eq]
      simp
    rw [hend] at heq
    exact List.append_cancel_right heq
  have ha : a = [] := by
    rw [List.eq_nil_iff_forall_not_mem]
    intro x hx
    have hx' : x ∈ List.replicate 999 '\n' := hfront ▸ List.mem_append_right u hx
    rw [(List.mem_replicate.1 hx').2] at hx
    exact h.line.notMem (List.mem_append_left _ hx)
  rw [ha, List.append_nil] at hfront
  rw [← hfront, List.count_replicate_self] at hlt
  exact absurd hlt (Nat.lt_irrefl 1000)

end Diagnostic

end EmbeddedCss
