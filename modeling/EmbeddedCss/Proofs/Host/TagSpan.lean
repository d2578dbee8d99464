import EmbeddedCss.Proofs.Host.Collection
import Mathlib.Data.List.DropRight

/-! # Where tags stand

A literal that is found comes with its tag and with the span of the word in front of it. The word is
read back from the backtick over white space and then over the characters of a word, dots among
them. The tag is the word without the dots around it, but the span is that of the whole word.

The main statement says what stands in front of a literal, and that the span locates the tag exactly
if the word has no dot at either end. A spread in front of a tag is a word with dots. -/

namespace EmbeddedCss.Host

/-- The word in front of a literal, as its span gives it. -/
def Tagged.word (source : Text) (f : Tagged) : Text := Text.slice source f.wordSpan

/-- What stands between the word in front of a literal and its backtick. -/
def Tagged.gap (source : Text) (f : Tagged) : Text :=
  Text.slice source ⟨f.wordSpan.stop, f.content.start - 1⟩

/-- The span of a literal gives its tag, and only white space follows up to the backtick. -/
def Tagged.LocatesTag (source : Text) (f : Tagged) : Prop :=
  f.word source = f.tag ∧ (f.gap source).all Text.isSpace = true

instance (source : Text) (f : Tagged) : Decidable (f.LocatesTag source) :=
  inferInstanceAs (Decidable (_ ∧ _))

/-! ## Dots around a word -/

theorem trimDots_eq_rdropWhile (t : Text) :
    trimDots t = (t.dropWhile (· == '.')).rdropWhile (· == '.') := rfl

/-- Only dots are taken away from a word. -/
theorem exists_dots (t : Text) :
    ∃ m n, t = List.replicate m '.' ++ trimDots t ++ List.replicate n '.' := by
  have hdots : ∀ {u : Text}, (∀ c ∈ u, (c == '.') = true) → u = List.replicate u.length '.' :=
    fun h ↦ List.eq_replicate_of_mem fun c hc ↦ by simpa using h c hc
  have hfront : t.takeWhile (· == '.') = List.replicate _ '.' :=
    hdots (List.all_eq_true.1 List.all_takeWhile)
  have hback : (t.dropWhile (· == '.')).rtakeWhile (· == '.') = List.replicate _ '.' :=
    hdots fun c hc ↦ List.mem_rtakeWhile_imp (p := (· == '.')) hc
  refine ⟨(t.takeWhile (· == '.')).length,
    ((t.dropWhile (· == '.')).rtakeWhile (· == '.')).length, ?_⟩
  rw [← hfront, ← hback, trimDots_eq_rdropWhile, List.append_assoc,
    List.rdropWhile_append_rtakeWhile, List.takeWhile_append_dropWhile]

theorem head?_trimDots_ne (t : Text) : (trimDots t).head? ≠ some '.' := by
  intro h
  obtain ⟨u, hu⟩ := List.head?_eq_some_iff.1 h
  -- the start of the word is that of what is left after the dots in front
  obtain ⟨v, hv⟩ := List.rdropWhile_prefix (p := (· == '.')) (t.dropWhile (· == '.'))
  have hnot := List.head?_dropWhile_not (· == '.') t
  rw [← hv, ← trimDots_eq_rdropWhile, hu] at hnot
  simp at hnot

theorem getLast?_trimDots_ne (t : Text) : (trimDots t).getLast? ≠ some '.' := by
  intro h
  rw [trimDots_eq_rdropWhile] at h
  have hne : (t.dropWhile (· == '.')).rdropWhile (· == '.') ≠ [] := by
    intro hnil
    simp [hnil] at h
  have hnot := List.rdropWhile_last_not (· == '.') (t.dropWhile (· == '.')) hne
  rw [List.getLast?_eq_some_getLast hne, Option.some.injEq] at h
  exact hnot (by simpa using h)

/-- A word is its own tag exactly if it has no dot at either end. -/
theorem trimDots_eq_self_iff {t : Text} :
    trimDots t = t ↔ t.head? ≠ some '.' ∧ t.getLast? ≠ some '.' := by
  constructor
  · intro h
    rw [← h]
    exact ⟨head?_trimDots_ne t, getLast?_trimDots_ne t⟩
  · rintro ⟨hfirst, hlast⟩
    have hdrop : t.dropWhile (· == '.') = t := by
      cases t with
      | nil => rfl
      | cons c t => exact List.dropWhile_cons_of_neg (by simpa using hfirst)
    rw [trimDots_eq_rdropWhile, hdrop, List.rdropWhile_eq_self_iff]
    intro hne hdot
    exact hlast (by rw [List.getLast?_eq_some_getLast hne, eq_of_beq hdot])

/-! ## What stands in front of a literal -/

/-- A literal that is found stands behind a word and white space. -/
theorem exists_word_of_scan {o : Options} {source : Text} {found : List Tagged}
    (h : scan o source = .ok found) {f : Tagged} (hf : f ∈ found) :
    ∃ before word space rest : Text, source = before ++ (word ++ (space ++ '`' :: rest)) ∧
      f.wordSpan = ⟨Text.size before, Text.size before + Text.size word⟩ ∧
      f.content.start = Text.size before + Text.size word + Text.size space + 1 ∧
      space.all Text.isSpace = true ∧ f.tag = trimDots word := by
  rcases scan_eq_ok_iff.1 h with ⟨-, -, rfl⟩ | ⟨-, hcollects⟩
  · simp at hf
  obtain ⟨ts, body, rest, t, hts, -, -, rfl⟩ := hcollects.exists_literal hf
  rw [List.append_nil]
  obtain ⟨space, hspace, hseen⟩ := exists_append_lastWord (ts.flatMap Token.text).reverse
  rcases hlast : lastWord (ts.flatMap Token.text).reverse with ⟨word, before⟩
  rw [hlast] at hseen
  have hfront : ts.flatMap Token.text = before.reverse ++ (word ++ space.reverse) := by
    simpa using congrArg List.reverse hseen
  refine ⟨before.reverse, word, space.reverse, body ++ '`' :: rest.flatMap Token.text, ?_, ?_, ?_,
    ?_, ?_⟩
  · rw [← flatMap_text_tokens source, hts, List.flatMap_append, hfront]
    simp [Token.text]
  · simp only [Tagged.ofLiteral, wordSpanAfter, hlast, Text.size_reverse]
  · rw [Tagged.ofLiteral, hseen]
    simp only [Text.size_append, Text.size_reverse]
    omega
  · rwa [List.all_reverse]
  · rw [Tagged.ofLiteral, tagAfter, hlast]

/-- The word in front of a literal is its tag with dots around it, and only white space stands
between the word and the backtick. So the span of the word locates the tag exactly if the word has
no dot at either end. -/
theorem locatesTag_iff_of_scan {o : Options} {source : Text} {found : List Tagged}
    (h : scan o source = .ok found) {f : Tagged} (hf : f ∈ found) :
    (∃ before rest, source = before ++ (f.word source ++ (f.gap source ++ '`' :: rest)) ∧
      Text.size before = f.wordSpan.start ∧
      Text.size (before ++ (f.word source ++ f.gap source)) + 1 = f.content.start) ∧
    (∃ m n, f.word source = List.replicate m '.' ++ f.tag ++ List.replicate n '.') ∧
    (f.gap source).all Text.isSpace = true ∧
    (f.LocatesTag source ↔
      (f.word source).head? ≠ some '.' ∧ (f.word source).getLast? ≠ some '.') := by
  obtain ⟨before, word, space, rest, hsource, hspan, hcontent, hspace, htag⟩ :=
    exists_word_of_scan h hf
  have hat : Text.StandsAt source (Text.size before) (word ++ (space ++ '`' :: rest)) :=
    ⟨before, hsource, rfl⟩
  have hword : f.word source = word := by
    rw [Tagged.word, hspan]
    exact hat.slice_eq
  have hgap : f.gap source = space := by
    rw [Tagged.gap, hspan, hcontent, Nat.add_sub_cancel]
    exact hat.advance.slice_eq
  rw [Tagged.LocatesTag, hword, hgap, htag]
  refine ⟨⟨before, rest, hsource, by rw [hspan], ?_⟩, exists_dots word, hspace, ?_⟩
  · rw [hcontent, Text.size_append, Text.size_append, ← Nat.add_assoc (Text.size before)]
  · rw [and_iff_left hspace, eq_comm, trimDots_eq_self_iff]

/-- A path with a dot behind it and a line feed in front of the backtick, and a tag behind a call
and white space: the first span has the dot, the second is that of the tag. -/
theorem locatesTag_iff_of_path : ∃ f g,
    scan {} "a.css.\n`b`;f() css\t`c`".toList = .ok [f, g] ∧
      f.word "a.css.\n`b`;f() css\t`c`".toList = f.tag ++ ['.'] ∧
      ¬ f.LocatesTag "a.css.\n`b`;f() css\t`c`".toList ∧
      g.LocatesTag "a.css.\n`b`;f() css\t`c`".toList := by
  have hscan : scan {} "a.css.\n`b`;f() css\t`c`".toList = .ok
      [⟨"a.css".toList, ⟨0, 6⟩, ⟨8, 9⟩, ⟨['b'], []⟩⟩,
        ⟨"css".toList, ⟨15, 18⟩, ⟨20, 21⟩, ⟨['c'], []⟩⟩] := by
    decide +kernel
  refine ⟨_, _, hscan, by decide +kernel, ?_, ?_⟩
  · rw [(locatesTag_iff_of_scan hscan (List.mem_cons_self ..)).2.2.2]
    decide +kernel
  · rw [(locatesTag_iff_of_scan hscan (List.mem_cons_of_mem _ (List.mem_singleton_self _))).2.2.2]
    decide +kernel

/-- The dots of a spread are part of the span, but not of the tag. -/
theorem not_locatesTag_of_spread : ∃ f,
    scan {} "[...css`a`]".toList = .ok [f] ∧ f.tag = "css".toList ∧
      f.word "[...css`a`]".toList = "...css".toList ∧ ¬ f.LocatesTag "[...css`a`]".toList :=
  ⟨⟨"css".toList, ⟨1, 7⟩, ⟨8, 9⟩, ⟨['a'], []⟩⟩, by decide +kernel⟩

end EmbeddedCss.Host
