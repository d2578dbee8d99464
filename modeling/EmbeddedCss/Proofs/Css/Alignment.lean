import EmbeddedCss.Proofs.Css.Terminator
import EmbeddedCss.Proofs.Marker.Uncommented

/-! # Reading cuts no marker

Where markers are the only comments of a stylesheet, every lexeme ends between two pieces: a marker
is taken as a whole as a comment, or it is passed over inside a string, whose end is a quote and so
no part of a marker. It follows that what was read is printed in chunks that are cut between pieces,
as long as printing adds no semicolon. -/

namespace EmbeddedCss

/-! ## Aligned scanners -/

namespace Scanner

open Marker

/-- What a scanner reads ends between two pieces, where markers are the only comments. -/
def Aligned (label : Text) (a : Scanner) : Prop :=
  ∀ ⦃ps l r⦄, Uncommented label ps → a (textOf label ps) = some (l, r) → Cut label ps l r

variable {label : Text} {a b : Scanner}

theorem Aligned.seq (ha : a.Aligned label) (hb : b.Aligned label) :
    (Scanner.seq a b).Aligned label := by
  intro ps l r hps h
  obtain ⟨l₁, r₁, l₂, h₁, h₂, rfl⟩ := seq_eq_some_iff.1 h
  obtain ⟨qs, rs, rfl, rfl, rfl⟩ := ha hps h₁
  obtain ⟨qs', rs', rfl, rfl, rfl⟩ := hb hps.right h₂
  exact ⟨qs ++ qs', rs', by simp, by simp, rfl⟩

theorem Aligned.orElse (ha : a.Aligned label) (hb : b.Aligned label) :
    (Scanner.orElse a b).Aligned label :=
  fun _ _ _ hps h ↦ (orElse_eq_some h).elim (@ha _ _ _ hps) (@hb _ _ _ hps)

theorem Aligned.followedBy (ha : a.Aligned label) (test : Text → Bool) :
    (Scanner.followedBy a test).Aligned label :=
  fun _ _ _ hps h ↦ ha hps (of_followedBy h).1

theorem Aligned.upTo (ha : a.Aligned label) (n : Nat) {ps : List Piece}
    (hps : Uncommented label ps) :
    Cut label ps (Scanner.upTo a n (textOf label ps)).1 (Scanner.upTo a n (textOf label ps)).2 := by
  induction n generalizing ps with
  | zero => exact cut_nil label ps
  | succ n ih =>
    rw [Scanner.upTo]
    split
    · exact cut_nil label ps
    · rename_i l r h
      obtain ⟨qs, rs, rfl, rfl, rfl⟩ := ha hps h
      obtain ⟨qs', rs', rfl, hl, hr⟩ := ih hps.right
      exact ⟨qs ++ qs', rs', by simp, by rw [textOf_append, hl], hr⟩

/-- A repetition of aligned lexemes is aligned. -/
theorem Aligned.many (ha : a.Aligned label) : Aligned label fun s ↦ some (Scanner.many a s) := by
  intro ps l r hps h
  have hcut := ha.upTo (textOf label ps).length hps
  obtain he : Scanner.many a (textOf label ps) = (l, r) := by simpa using h
  rw [Scanner.many] at he
  rwa [he] at hcut

theorem Aligned.many1 (ha : a.Aligned label) : (Scanner.many1 a).Aligned label := ha.seq ha.many

/-- A character that is no slash is read off between pieces. -/
theorem aligned_char {p : Char → Bool} (hp : p '/' = false) : (char p).Aligned label := by
  intro ps l r hps h
  cases hs : textOf label ps with
  | nil => simp [hs, char] at h
  | cons c t =>
    simp only [hs, char, Option.ite_none_right_eq_some, Option.some.injEq, Prod.mk.injEq] at h
    obtain ⟨hc, rfl, rfl⟩ := h
    have hne : c ≠ '/' := by
      rintro rfl
      simp [hp] at hc
    obtain ⟨qs, rfl, rfl⟩ := hps.char_of_cons hne hs
    exact cut_cons label (.char c) qs

/-- A run of characters that are no slashes ends between pieces. -/
theorem aligned_run {p : Char → Bool} (hp : p '/' = false) : (run p).Aligned label := by
  intro ps l r hps h
  obtain ⟨rfl, rfl⟩ : (textOf label ps).takeWhile p = l ∧ (textOf label ps).dropWhile p = r := by
    simpa [run] using h
  clear h
  induction ps with
  | nil => exact cut_nil label []
  | cons q ps ih =>
    rcases hps.first with ⟨c, rfl⟩ | ⟨digits, rfl, -⟩
    · change Cut label _ ((c :: textOf label ps).takeWhile p) ((c :: textOf label ps).dropWhile p)
      by_cases hc : p c = true
      · rw [List.takeWhile_cons_of_pos hc, List.dropWhile_cons_of_pos hc]
        exact (ih hps.rest).cons (.char c)
      · rw [List.takeWhile_cons_of_neg hc, List.dropWhile_cons_of_neg hc]
        exact cut_nil label (.char c :: ps)
    · have hstart : textOf label (.comment digits :: ps) = '/' :: _ := rfl
      have hslash : ¬ p '/' = true := by simp [hp]
      rw [hstart, List.takeWhile_cons_of_neg hslash, List.dropWhile_cons_of_neg hslash]
      exact cut_nil label (.comment digits :: ps)

end Scanner

/-! ## Lexemes are aligned -/

namespace Css.Lexeme

open Marker Scanner

/-- A marker is read as a comment. -/
theorem comment_text_append {label digits : Text} (hlabel : Options.isLabel label = true)
    (hd : IsNumber digits) (s : Text) :
    comment ((Piece.comment digits).text label ++ s) =
      some ((Piece.comment digits).text label, s) := by
  have hstar : '*' ∉ label ++ ':' :: digits := by
    intro h
    rcases List.mem_append.1 h with h | h
    · exact absurd (isLabelChar_of_mem hlabel h) (by decide)
    · rcases List.mem_cons.1 h with h | h
      · exact absurd h (by decide)
      · exact absurd (hd.2 _ h) (by decide)
  have htext : ∀ t, (Piece.comment digits).text label ++ t =
      '/' :: '*' :: (label ++ ':' :: digits ++ '*' :: '/' :: t) := by
    intro t
    simp [Piece.text, commentOpening]
  have hself := htext []
  rw [List.append_nil] at hself
  rw [htext, hself, comment, commentTail_append_of_notMem hstar]
  rfl

/-- At a character no comment starts. -/
theorem opensComment_char {label : Text} {c : Char} {ps : List Piece}
    (h : Uncommented label (.char c :: ps)) : opensComment (c :: textOf label ps) = false := by
  cases hopen : opensComment (c :: textOf label ps) with
  | false => rfl
  | true =>
    unfold opensComment at hopen
    split at hopen
    · rename_i t he
      obtain ⟨rfl, ht⟩ := List.cons_eq_cons.1 he
      obtain ⟨qs, rfl, -⟩ := h.rest.char_of_cons (by decide) ht
      exact absurd (List.prefix_append [_, _] qs).isInfix h.noComment
    · simp at hopen

theorem comment_eq_none {s : Text} (h : opensComment s = false) : comment s = none := by
  unfold comment
  split
  · simp [opensComment] at h
  · rfl

theorem aligned_comment (label : Text) : Aligned label comment := by
  intro ps l r hps h
  cases ps with
  | nil => simp [comment] at h
  | cons p ps =>
    rcases hps.first with ⟨c, rfl⟩ | ⟨digits, rfl, hd⟩
    · change comment (c :: textOf label ps) = _ at h
      simp [comment_eq_none (opensComment_char hps)] at h
    · rw [textOf_cons, comment_text_append hps.isLabel hd] at h
      obtain ⟨rfl, rfl⟩ : (Piece.comment digits).text label = l ∧ textOf label ps = r := by
        simpa using h
      exact cut_cons label _ ps

/-- A single character that opens no comment is a piece. -/
theorem aligned_unlessComment (label : Text) (p : Char → Bool) :
    Aligned label fun s ↦ if opensComment s then none else Scanner.char p s := by
  intro ps l r hps h
  obtain ⟨hopen, hchar⟩ : ¬ opensComment (textOf label ps) = true ∧
      Scanner.char p (textOf label ps) = some (l, r) := by
    simpa using h
  cases ps with
  | nil => simp [Scanner.char] at hchar
  | cons q ps =>
    rcases hps.first with ⟨c, rfl⟩ | ⟨digits, rfl, -⟩
    · change Scanner.char p (c :: textOf label ps) = _ at hchar
      simp only [Scanner.char, Option.ite_none_right_eq_some, Option.some.injEq,
        Prod.mk.injEq] at hchar
      obtain ⟨-, rfl, rfl⟩ := hchar
      exact cut_cons label (.char c) ps
    · exact absurd rfl hopen

/-- Inside a string, a stretch of characters of markers is passed over. -/
theorem stringTail_append {quote : Char} (hquote : isMarkerChar quote = false) {x : Text}
    (hx : ∀ c ∈ x, isMarkerChar c = true) (s : Text) :
    stringTail quote (x ++ s) = (stringTail quote s).map fun p ↦ (x ++ p.1, p.2) := by
  induction x with
  | nil => simp
  | cons c x ih =>
    have hc : isMarkerChar c = true := hx c (List.mem_cons_self ..)
    have hslash : c ≠ '\\' := by
      rintro rfl
      simp [isMarkerChar, isLabelChar] at hc
    have hne : c ≠ quote := by
      rintro rfl
      simp [hquote] at hc
    have hline : c ≠ '\n' := by
      rintro rfl
      simp [isMarkerChar, isLabelChar] at hc
    rw [List.cons_append, stringTail, if_neg hne, if_neg hline,
      ih fun d hd ↦ hx d (List.mem_cons_of_mem _ hd), Option.map_map]
    · rfl
    · rintro d t rfl
      exact absurd rfl hslash

/-- Inside a string, a character that hides nothing is a piece. -/
theorem cut_of_stringTail_cons {label l r : Text} {quote c : Char} {ps : List Piece}
    (h : stringTail quote (c :: textOf label ps) = some (l, r)) (hc : c = '\\' → ps = [])
    (htail : ∀ {l r}, stringTail quote (textOf label ps) = some (l, r) → Cut label ps l r) :
    Cut label (.char c :: ps) l r := by
  have hhides : ∀ (d : Char) (t : Text), c = '\\' → textOf label ps = d :: t → False := by
    intro d t he ht
    rw [hc he] at ht
    simp at ht
  rw [stringTail.eq_3 _ _ _ hhides] at h
  split at h
  · obtain ⟨rfl, rfl⟩ : [c] = l ∧ textOf label ps = r := by simpa using h
    exact cut_cons label (.char c) ps
  · split at h
    · simp at h
    · obtain ⟨⟨l, r⟩, h', ⟨⟩⟩ := Option.map_eq_some_iff.1 h
      exact (htail h').cons (.char c)

/-- A string ends at a quote, which is a piece. -/
theorem cut_of_stringTail {label : Text} {quote : Char} (hquote : isMarkerChar quote = false) :
    {l r : Text} → (ps : List Piece) → Uncommented label ps →
      stringTail quote (textOf label ps) = some (l, r) → Cut label ps l r
  | l, r, [], _, h => by simp [stringTail] at h
  | l, r, .bare digits :: ps, hps, _ => absurd rfl (hps.ne_bare _ (List.mem_cons_self ..) digits)
  | l, r, .comment digits :: ps, hps, h => by
    have hmarker : ∀ c ∈ (Piece.comment digits).text label, isMarkerChar c = true := fun c hc ↦
      isMarkerChar_of_mem_text hps.isLabel (hps.isNumber _ (List.mem_cons_self ..) digits rfl) hc
    rw [textOf_cons, stringTail_append hquote hmarker, Option.map_eq_some_iff] at h
    obtain ⟨⟨l, r⟩, h, ⟨⟩⟩ := h
    exact (cut_of_stringTail hquote ps hps.rest h).cons _
  | l, r, .char c :: p :: ps, hps, h => by
    by_cases hc : c = '\\'
    · -- the backslash hides the first character of the next piece
      subst hc
      rcases hps.rest.first with ⟨d, rfl⟩ | ⟨digits, rfl, hd⟩
      · change stringTail quote ('\\' :: d :: textOf label ps) = _ at h
        rw [stringTail, Option.map_eq_some_iff] at h
        obtain ⟨⟨l, r⟩, h, ⟨⟩⟩ := h
        exact ((cut_of_stringTail hquote ps hps.rest.rest h).cons (.char d)).cons (.char '\\')
      · obtain ⟨x, hx⟩ : ∃ x, (Piece.comment digits).text label = '/' :: x := ⟨_, rfl⟩
        have hmarker : ∀ e ∈ x, isMarkerChar e = true := fun e he ↦
          isMarkerChar_of_mem_text hps.isLabel hd (hx ▸ List.mem_cons_of_mem _ he)
        rw [textOf_cons, textOf_cons, hx] at h
        change stringTail quote ('\\' :: '/' :: (x ++ textOf label ps)) = _ at h
        rw [stringTail, stringTail_append hquote hmarker, Option.map_map,
          Option.map_eq_some_iff] at h
        obtain ⟨⟨l, r⟩, h, ⟨⟩⟩ := h
        have hcut := (cut_of_stringTail hquote ps hps.rest.rest h).cons (.comment digits)
        rw [hx] at hcut
        exact hcut.cons (.char '\\')
    · exact cut_of_stringTail_cons h (fun he ↦ absurd he hc)
        fun h ↦ cut_of_stringTail hquote (p :: ps) hps.rest h
  | l, r, [.char c], hps, h => cut_of_stringTail_cons h (fun _ ↦ rfl) (by simp [stringTail])

theorem aligned_string (label : Text) : Aligned label string := by
  intro ps l r hps h
  cases hs : textOf label ps with
  | nil => simp [hs, string] at h
  | cons c t =>
    simp only [hs, string, Option.ite_none_right_eq_some] at h
    obtain ⟨hc, h⟩ := h
    have hquote : isMarkerChar c = false := by
      rcases hc with rfl | rfl <;> decide
    have hslash : c ≠ '/' := by
      rintro rfl
      simp at hc
    obtain ⟨qs, rfl, rfl⟩ := hps.char_of_cons hslash hs
    obtain ⟨⟨l, r⟩, h', ⟨⟩⟩ := Option.map_eq_some_iff.1 h
    exact (cut_of_stringTail hquote qs hps.rest h').cons (.char c)

theorem aligned_shielded (label : Text) : Aligned label shielded :=
  (aligned_comment label).orElse (aligned_string label)

/-- What is no comment and no string starts with a character that is a piece. -/
theorem char_of_shielded_eq_none {label t : Text} {c : Char} {ps : List Piece}
    (hps : Uncommented label ps) (hs : textOf label ps = c :: t) (h : shielded (c :: t) = none) :
    ∃ qs, ps = .char c :: qs ∧ textOf label qs = t := by
  cases ps with
  | nil => simp at hs
  | cons p ps =>
    rcases hps.first with ⟨d, rfl⟩ | ⟨digits, rfl, hd⟩
    · obtain ⟨rfl, ht⟩ := List.cons_eq_cons.1 hs
      exact ⟨ps, rfl, ht⟩
    · rw [← hs, textOf_cons, shielded, Scanner.orElse, comment_text_append hps.isLabel hd] at h
      simp at h

/-- A group ends at a character that is a piece, since whatever could hide it is read as a whole. -/
theorem aligned_groupTail (label : Text) (opener closer : Char) (depth : Nat) :
    Aligned label (groupTail opener closer depth) := by
  intro ps l r hps h
  generalize hs : textOf label ps = s at h
  fun_induction groupTail opener closer depth s generalizing ps l r with
  | case1 depth s l₁ r₁ h₁ ih =>
    subst hs
    obtain ⟨qs, rs, rfl, rfl, rfl⟩ := aligned_shielded label hps h₁
    obtain ⟨⟨l, r⟩, h', ⟨⟩⟩ := Option.map_eq_some_iff.1 h
    obtain ⟨qs', rs', rfl, rfl, rfl⟩ := ih hps.right rfl h'
    exact ⟨qs ++ qs', rs', by simp, by simp, rfl⟩
  | case2 => simp at h
  | case3 t hnone =>
    obtain ⟨qs, rfl, rfl⟩ := char_of_shielded_eq_none hps hs hnone
    obtain ⟨rfl, rfl⟩ : [closer] = l ∧ textOf label qs = r := by simpa using h
    exact cut_cons label (.char closer) qs
  | case4 t depth hnone ih =>
    obtain ⟨qs, rfl, rfl⟩ := char_of_shielded_eq_none hps hs hnone
    obtain ⟨⟨l, r⟩, h', ⟨⟩⟩ := Option.map_eq_some_iff.1 h
    exact (ih hps.rest rfl h').cons (.char closer)
  | case5 depth c t hnone hc ih =>
    obtain ⟨qs, rfl, rfl⟩ := char_of_shielded_eq_none hps hs hnone
    obtain ⟨⟨l, r⟩, h', ⟨⟩⟩ := Option.map_eq_some_iff.1 h
    exact (ih hps.rest rfl h').cons (.char c)

theorem aligned_group (label : Text) {opener : Char} (closer : Char) (hopener : opener ≠ '/') :
    Aligned label (group opener closer) := by
  intro ps l r hps h
  cases hs : textOf label ps with
  | nil => simp [hs, group] at h
  | cons c t =>
    simp only [hs, group, Option.ite_none_right_eq_some] at h
    obtain ⟨rfl, h⟩ := h
    obtain ⟨qs, rfl, rfl⟩ := hps.char_of_cons hopener hs
    obtain ⟨⟨l, r⟩, h', ⟨⟩⟩ := Option.map_eq_some_iff.1 h
    exact (aligned_groupTail label c closer 0 hps.rest h').cons (.char c)

theorem aligned_closed (label : Text) : Aligned label closed :=
  (aligned_shielded label).orElse
    ((aligned_group label ')' (by decide)).orElse (aligned_group label ']' (by decide)))

theorem aligned_atom (label : Text) : Aligned label atom :=
  (aligned_closed label).orElse (aligned_unlessComment label _)

theorem aligned_spaces (label : Text) : Aligned label spaces := aligned_run (by decide)

theorem aligned_prelude (label : Text) : Aligned label prelude :=
  (aligned_atom label).seq ((aligned_spaces label).seq (aligned_atom label)).many

theorem aligned_property (label : Text) : Aligned label property :=
  ((aligned_comment label).orElse (aligned_unlessComment label _)).many1

theorem aligned_colon (label : Text) : Aligned label colon :=
  (aligned_spaces label).seq ((aligned_char (by decide)).seq (aligned_spaces label))

theorem aligned_trailing (label : Text) : Aligned label trailing :=
  (aligned_char (by decide)).many1.followedBy _

theorem aligned_atName (label : Text) : Aligned label atName := (aligned_char (by decide)).many1

theorem aligned_gap (label : Text) : Aligned label gap := aligned_run (by decide)

theorem aligned_loneComment (label : Text) : Aligned label loneComment :=
  (aligned_comment label).followedBy _

end Css.Lexeme

namespace Css

open Marker

/-! ## What is read is printed in pieces -/

theorem chunking_chunk (label : Text) (ps : List Piece) :
    Chunking label ps (chunk (textOf label ps)) := by
  unfold chunk
  split
  · rename_i h
    obtain rfl := textOf_eq_nil_iff.1 h
    exact chunking_nil label
  · exact chunking_singleton label ps

theorem eq_bang_of_toLower {c : Char} (h : c.toLower = '!') : c = '!' := by
  unfold Char.toLower at h
  split at h
  · -- an upper-case letter becomes a lower-case one
    rename_i hc
    have hval : c.val + ('a'.val - 'A'.val) = '!'.val := congrArg Char.val h
    have hsub : c.val = '!'.val - ('a'.val - 'A'.val) := by grind
    rw [hsub] at hc
    exact absurd hc (by decide)
  · exact h

/-- The mark of importance starts with a blank or with its exclamation mark. -/
theorem mark_start {written value mark : Text} (h : cutImportant written = some (value, mark)) :
    ∃ c t, mark = c :: t ∧ isMarkerChar c = false := by
  have happend := append_of_cutImportant h
  simp only [cutImportant, Option.ite_none_right_eq_some, Option.some.injEq, Prod.mk.injEq] at h
  obtain ⟨hbang, rfl, -⟩ := h
  have htext := Text.trimEnd_append_blankEnd written
  generalize Text.trimEnd written = text at *
  generalize text.length - importantMark.length = n at *
  rw [show importantMark = '!' :: "important".toList by decide] at hbang
  -- the mark is made up of the blanks in front of it, the mark itself, and the blanks behind
  have hmark : mark = Text.blankEnd (text.take n) ++ (text.drop n ++ Text.blankEnd written) := by
    have hfront := Text.trimEnd_append_blankEnd (text.take n)
    apply List.append_cancel_left
    rw [happend, ← List.append_assoc, hfront, ← List.append_assoc, List.take_append_drop, htext]
  cases hblank : Text.blankEnd (text.take n) with
  | nil =>
    cases hdrop : text.drop n with
    | nil => simp [hdrop] at hbang
    | cons c t =>
      have hc : c.toLower = '!' := by
        rw [hdrop] at hbang
        exact (List.cons_eq_cons.1 hbang).1
      refine ⟨c, t ++ Text.blankEnd written, by rw [hmark, hblank, hdrop]; rfl, ?_⟩
      rw [eq_bang_of_toLower hc]
      decide
  | cons c t =>
    refine ⟨c, _, by rw [hmark, hblank]; rfl, isMarkerChar_of_isBlank ?_⟩
    have hmem : c ∈ (text.take n).reverse.takeWhile Text.isBlank := by
      rw [← List.mem_reverse]
      change c ∈ Text.blankEnd (text.take n)
      simp [hblank]
    exact List.all_eq_true.1 List.all_takeWhile c hmem

/-- A value is printed in chunks that are cut between pieces. -/
theorem chunking_valueChunks {label : Text} {ps : List Piece} (hps : Uncommented label ps) :
    Chunking label ps (valueChunks (textOf label ps)) := by
  unfold valueChunks
  split
  · rename_i value mark h
    obtain ⟨c, t, rfl, hc⟩ := mark_start h
    obtain ⟨qs, rs, rfl, rfl, hrs⟩ := hps.cut_of_append hc (append_of_cutImportant h).symm
    rw [← hrs]
    exact (chunking_chunk label qs).append (chunking_chunk label rs)
  · exact chunking_chunk label ps

/-! ## Derivations -/

/-- However the text `s` is woven, the chunks are made of its first pieces, and `r` is left. -/
def CutsInto (label s : Text) (chunks : List Text) (r : Text) : Prop :=
  ∀ ⦃ps⦄, Uncommented label ps → textOf label ps = s →
    ∃ qs rs, ps = qs ++ rs ∧ Chunking label qs chunks ∧ textOf label rs = r

theorem cutsInto_nil (label s : Text) : CutsInto label s [] s :=
  fun ps _ hs ↦ ⟨[], ps, rfl, chunking_nil label, hs⟩

theorem CutsInto.append {label s r t : Text} {chunks chunks' : List Text}
    (h : CutsInto label s chunks r) (h' : CutsInto label r chunks' t) :
    CutsInto label s (chunks ++ chunks') t := by
  intro ps hps hs
  obtain ⟨qs, rs, rfl, hqs, hrs⟩ := h hps hs
  obtain ⟨qs', rs', rfl, hqs', hrs'⟩ := h' hps.right hrs
  exact ⟨qs ++ qs', rs', by simp, hqs.append hqs', hrs'⟩

/-- An aligned lexeme is a chunk of pieces. -/
theorem cutsInto_lexeme {label s l r : Text} {a : Scanner} (ha : a.Aligned label)
    (h : a s = some (l, r)) : CutsInto label s (chunk l) r := by
  rintro ps hps rfl
  obtain ⟨qs, rs, rfl, rfl, rfl⟩ := ha hps h
  exact ⟨qs, rs, rfl, chunking_chunk label qs, rfl⟩

/-- A character that is no slash is a chunk of pieces. -/
theorem cutsInto_char (label : Text) {c : Char} (hc : c ≠ '/') (r : Text) :
    CutsInto label (c :: r) [[c]] r := by
  intro ps hps hs
  obtain ⟨qs, rfl, rfl⟩ := hps.char_of_cons hc hs
  exact ⟨[.char c], qs, rfl, chunking_singleton label [.char c], rfl⟩

theorem ParamsRead.cutsInto (label : Text) {s r : Text} {params : Option (Text × Text)}
    (h : ParamsRead s params r) : CutsInto label s (paramsChunks params) r := by
  cases h with
  | some h₁ h₂ =>
    exact (cutsInto_lexeme (Lexeme.aligned_spaces label) h₁).append
      (cutsInto_lexeme (Lexeme.aligned_prelude label) h₂)
  | none => exact cutsInto_nil label s

/-- The name and the parameters of an at-rule are printed in chunks of pieces. -/
theorem cutsInto_atStart (label : Text) {s name s₁ r : Text} {params : Option (Text × Text)}
    (h₁ : Lexeme.atName s = some (name, s₁)) (h₂ : ParamsRead s₁ params r) :
    CutsInto label ('@' :: s) ([['@']] ++ chunk name ++ paramsChunks params) r := by
  have hat := cutsInto_char label (show '@' ≠ '/' by decide) s
  have hname := cutsInto_lexeme (Lexeme.aligned_atName label) h₁
  exact hat.append hname |>.append (h₂.cutsInto label)

/-- A value with the white space behind it is printed in chunks of pieces. -/
theorem cutsInto_value (label : Text) {s₁ s₂ r : Text} {value trailing : Option Text}
    (h₁ : MayRead Lexeme.prelude s₁ value s₂) (h₂ : MayRead Lexeme.trailing s₂ trailing r) :
    CutsInto label s₁ (valueChunks (value.getD [] ++ trailing.getD [])) r := by
  have hcut : ∀ {a : Scanner} {l : Option Text} {r : Text} {ps : List Piece}, a.Aligned label →
      Uncommented label ps → MayRead a (textOf label ps) l r → Cut label ps (l.getD []) r := by
    intro a l r ps ha hps h
    generalize hs : textOf label ps = s at h
    cases h with
    | some h => exact ha hps (hs ▸ h)
    | none => exact hs ▸ cut_nil label ps
  rintro ps hps rfl
  obtain ⟨qs, rs, rfl, hqs, rfl⟩ := hcut (Lexeme.aligned_prelude label) hps h₁
  obtain ⟨qs', rs', rfl, hqs', rfl⟩ := hcut (Lexeme.aligned_trailing label) hps.right h₂
  rw [← hqs, ← hqs', ← textOf_append]
  rw [← List.append_assoc] at hps ⊢
  exact ⟨qs ++ qs', rs', rfl, chunking_valueChunks hps.left, rfl⟩

/-- A gap is printed in chunks of pieces if it has the semicolon that ends the item in front. -/
theorem cutsInto_gap (label : Text) {s gap r : Text} {unended : Bool}
    (h : Lexeme.gap s = some (gap, r)) (hsemi : unended = true → gap.head? = some ';') :
    CutsInto label s (terminator unended ++ chunk (cutTerminator unended gap).1) r := by
  rintro ps hps rfl
  obtain ⟨qs, rs, rfl, rfl, rfl⟩ := Lexeme.aligned_gap label hps h
  refine ⟨qs, rs, rfl, ?_, rfl⟩
  cases unended with
  | false => exact chunking_chunk label qs
  | true =>
    obtain ⟨t, ht⟩ := List.head?_eq_some_iff.1 (hsemi rfl)
    obtain ⟨qs, rfl, rfl⟩ := hps.left.char_of_cons (by decide) ht
    rw [ht]
    exact (chunking_singleton label [.char ';']).append (chunking_chunk label qs)

/-- After the last item, a gap is printed in chunks of pieces. -/
theorem cutsInto_lastGap (label : Text) {s gap r : Text} (unended : Bool)
    (h : Lexeme.gap s = some (gap, r)) :
    CutsInto label s (terminator (cutTerminator unended gap).2 ++
      chunk (cutTerminator unended gap).1) r := by
  by_cases hcut : unended = true ∧ gap.head? = some ';'
  · obtain ⟨rfl, hsemi⟩ := hcut
    have htrue : (cutTerminator true gap).2 = true := by simp [cutTerminator_eq, hsemi]
    rw [htrue]
    exact cutsInto_gap label h fun _ ↦ hsemi
  · have hfalse : cutTerminator unended gap = (gap, false) := by
      rw [cutTerminator_eq, if_neg]
      simpa using hcut
    rw [hfalse]
    exact cutsInto_lexeme (Lexeme.aligned_gap label) h

mutual

theorem Item.Reads.cutsInto {label : Text} : {s r : Text} → {i : Item} → Item.Reads s i r →
    {start : Nat} → i.missing start = [] → CutsInto label s i.chunks r
  | _, _, _, .comment h, _, _ => by
    rintro ps hps rfl
    obtain ⟨qs, rs, rfl, rfl, rfl⟩ := Lexeme.aligned_loneComment label hps h
    exact ⟨qs, rs, rfl, chunking_singleton label qs, rfl⟩
  | _, r, _, .rule h₁ h₂ hb, _, hm => by
    have hselector := cutsInto_lexeme (Lexeme.aligned_prelude label) h₁
    have hbetween := cutsInto_lexeme (Lexeme.aligned_spaces label) h₂
    have hopen := hselector.append hbetween |>.append (cutsInto_char label (by decide) _)
    exact hopen.append (hb.cutsInto hm) |>.append (cutsInto_char label (by decide) r)
  | _, r, _, .bare h₁ h₂, _, _ => (cutsInto_atStart label h₁ h₂).append (cutsInto_nil label r)
  | _, _, _, .statement h₁ h₂ h₃, _, _ => by
    have hbetween := cutsInto_lexeme (Lexeme.aligned_spaces label) h₃
    exact (cutsInto_atStart label h₁ h₂).append hbetween
  | _, r, _, .atBlock h₁ h₂ h₃ hb, _, hm => by
    have hbetween := cutsInto_lexeme (Lexeme.aligned_spaces label) h₃
    have hopen := cutsInto_atStart label h₁ h₂ |>.append hbetween
      |>.append (cutsInto_char label (by decide) _)
    exact hopen.append (hb.cutsInto hm) |>.append (cutsInto_char label (by decide) r)
  | _, _, _, .decl h₁ h₂ h₃ h₄, _, _ => by
    have hproperty := cutsInto_lexeme (Lexeme.aligned_property label) h₁
    have hcolon := cutsInto_lexeme (Lexeme.aligned_colon label) h₂
    exact hproperty.append hcolon |>.append (cutsInto_value label h₃ h₄)

/-- What is read is printed in chunks of pieces, if no semicolon is missing. -/
theorem Body.Reads.cutsInto {label : Text} : {s r : Text} → {b : Body} → Body.Reads s b r →
    {offset : Nat} → {unended : Bool} → b.missing offset unended = [] →
    CutsInto label s (b.chunks unended) r
  | _, _, _, .done h, _, unended, _ => cutsInto_lastGap label unended h
  | _, _, _, .item h₁ h₂ h₃, _, unended, hm => by
    rw [Body.missing, List.append_eq_nil_iff, List.append_eq_nil_iff] at hm
    obtain ⟨⟨hgap, hi⟩, hrest⟩ := hm
    have hsemi : unended = true → _ = some ';' := fun hu ↦ by simpa [hu] using hgap
    exact cutsInto_gap label h₁ hsemi |>.append (h₂.cutsInto hi) |>.append (h₃.cutsInto hrest)

end

/-- A stylesheet in which markers are the only comments and no semicolon is missing is printed in
chunks that are cut between its pieces. -/
theorem chunking_of_parse {label : Text} {ps : List Piece} {root : Root}
    (hps : Uncommented label ps) (h : parse (textOf label ps) = .ok root)
    (htext : root.text = textOf label ps) : Chunking label ps root.chunks := by
  have hmissing := (text_eq_iff_missing_eq_nil h).1 htext
  obtain ⟨b, hb, rfl⟩ := reads_of_parse h
  have hcss : b.text = textOf label ps := by simpa using hb.append
  rw [← hcss, missing_toRoot hb.wellFormed] at hmissing
  obtain ⟨qs, rs, rfl, hqs, hrs⟩ := hb.cutsInto hmissing hps rfl
  obtain rfl := textOf_eq_nil_iff.1 hrs
  rw [List.append_nil, hb.wellFormed.chunks_toRoot]
  exact hqs

end Css

end EmbeddedCss
