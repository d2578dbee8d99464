import EmbeddedCss.Proofs.Host.Nesting

/-! # Balanced host code

Code is balanced if everything that opens in it also closes in it: braces, strings, comments, and
template literals whose interpolations hold balanced code again. This is said with a grammar of
texts, without the reading of regions.

The main statement is that the two go together: balanced code stays inside of the braces that it is
written in, and a balanced body inside of its backticks. -/

namespace EmbeddedCss.Host

/-- What can stand between the quotes of a string. -/
inductive InQuotes (quote : Char) : Text → Prop
  | nil : InQuotes quote []
  | char {c : Char} {t : Text} :
      c ≠ quote → c ≠ '\n' → c ≠ '\\' → InQuotes quote t → InQuotes quote (c :: t)
  /-- A backslash hides any character. -/
  | escape {c : Char} {t : Text} : InQuotes quote t → InQuotes quote ('\\' :: c :: t)

mutual

/-- Code in which all is closed that is opened. -/
inductive Balanced : Text → Prop
  | nil : Balanced []
  /-- A character that neither opens nor closes anything. -/
  | plain {c : Char} {t : Text} :
      c ∉ ['{', '}', '\'', '"', '`'] →
      (c = '/' → t.head? ≠ some '/' ∧ t.head? ≠ some '*') →
      Balanced t → Balanced (c :: t)
  | braces {s t : Text} : Balanced s → Balanced t → Balanced ('{' :: s ++ '}' :: t)
  | string {quote : Char} {s t : Text} :
      quote = '\'' ∨ quote = '"' → InQuotes quote s → Balanced t →
      Balanced (quote :: s ++ quote :: t)
  | lineComment {s t : Text} :
      '\n' ∉ s → Balanced t → Balanced ('/' :: '/' :: s ++ '\n' :: t)
  | blockComment {s t : Text} :
      ¬ ['*', '/'] <:+: s → Balanced t → Balanced ('/' :: '*' :: s ++ '*' :: '/' :: t)
  | template {s t : Text} : BalancedBody s → Balanced t → Balanced ('`' :: s ++ '`' :: t)

/-- The body of a template literal whose interpolations are balanced. -/
inductive BalancedBody : Text → Prop
  | nil : BalancedBody []
  | char {c : Char} {t : Text} :
      c ≠ '`' → c ≠ '\\' → (c = '$' → t.head? ≠ some '{') →
      BalancedBody t → BalancedBody (c :: t)
  /-- A backslash hides any character. -/
  | escape {c : Char} {t : Text} : BalancedBody t → BalancedBody ('\\' :: c :: t)
  | interpolation {s t : Text} :
      Balanced s → BalancedBody t → BalancedBody ('$' :: '{' :: s ++ '}' :: t)

end

open Region

/-- What opens inside of a region is closed before it. -/
theorem close_cons_of_close (inner : List Region) {q : Region} {c : Char} {s s' l m r : Text}
    (hnext : q.next c s.head? = inner ++ [q]) (hinner : close inner s = some (l, s'))
    (hq : close [q] s' = some (m, r)) : close [q] (c :: s) = some (c :: (l ++ m), r) := by
  rw [close_cons_eq_some]
  refine ⟨l ++ m, rfl, ?_⟩
  rw [hnext, List.append_nil, close_append]
  exact Scanner.seq_eq_some_iff.2 ⟨l, s', m, hinner, hq, rfl⟩

/-- A character that opens nothing inside of a region is passed over. -/
theorem close_cons_of_next {q : Region} {c : Char} {s l r : Text}
    (hnext : q.next c s.head? = [q]) (h : close [q] s = some (l, r)) :
    close [q] (c :: s) = some (c :: l, r) :=
  close_cons_of_close [] hnext (close_nil s) h

/-! ## Strings and comments -/

theorem InQuotes.close_eq {quote : Char} {s : Text} (h : InQuotes quote s) (hquote : quote ≠ '\\')
    (r : Text) : close [.string quote] (s ++ quote :: r) = some (s ++ [quote], r) := by
  induction h with
  | nil => simp [close_cons_cons, next]
  | char hquote' hline hescape _ ih =>
    exact close_cons_of_next (by simp [next, hquote', hline, hescape]) ih
  | @escape c t _ ih =>
    refine close_cons_of_close [.any] (l := [c]) ?_ ?_ ih
    · simp [next, hquote.symm]
    · simp [close_any_cons]

theorem close_lineComment {s : Text} (h : '\n' ∉ s) (r : Text) :
    close [.lineComment] (s ++ '\n' :: r) = some (s ++ ['\n'], r) := by
  induction s with
  | nil => simp [close_cons_cons, next]
  | cons c s ih =>
    rw [List.mem_cons, not_or] at h
    exact close_cons_of_next (by simp [next, Ne.symm h.1]) (ih h.2)

theorem close_blockComment {s : Text} (h : ¬ ['*', '/'] <:+: s) (r : Text) :
    close [.blockComment] (s ++ '*' :: '/' :: r) = some (s ++ ['*', '/'], r) := by
  induction s with
  | nil => simp [close_cons_cons, next]
  | cons c s ih =>
    rw [List.infix_cons_iff, not_or] at h
    refine close_cons_of_next ?_ (ih h.2)
    rw [next, if_neg]
    rintro ⟨rfl, hhead⟩
    -- the slash belongs to the comment, since a star follows its text
    cases s with
    | nil => simp at hhead
    | cons d s =>
      obtain rfl : d = '/' := by simpa using hhead
      exact h.1 ⟨s, rfl⟩

/-! ## Code and template literals -/

/-- A slash in balanced code in front of its closing brace opens no comment. -/
theorem next_code_of_plain {c : Char} {t r : Text} (hc : c ∉ ['{', '}', '\'', '"', '`'])
    (hslash : c = '/' → t.head? ≠ some '/' ∧ t.head? ≠ some '*') :
    next c (t ++ '}' :: r).head? .code = [.code] := by
  simp only [List.mem_cons, List.not_mem_nil, not_or, or_false] at hc
  obtain ⟨hopen, hclose, hsingle, hdouble, htick⟩ := hc
  have hahead : c = '/' → (t ++ '}' :: r).head? ≠ some '/' ∧ (t ++ '}' :: r).head? ≠ some '*' := by
    intro hc
    cases t with
    | nil => simp
    | cons d t => exact hslash hc
  simp only [next, hopen, hclose, hsingle, hdouble, htick, if_false, or_self]
  rw [if_neg fun h ↦ (hahead h.1).1 h.2, if_neg fun h ↦ (hahead h.1).2 h.2]

mutual

/-- Balanced code is read up to the brace behind it. -/
theorem Balanced.close_eq {t : Text} (h : Balanced t) (r : Text) :
    close [.code] (t ++ '}' :: r) = some (t ++ ['}'], r) := by
  cases h with
  | nil => simp [close_cons_cons, next]
  | plain hc hslash ht =>
    exact close_cons_of_next (next_code_of_plain hc hslash) (ht.close_eq r)
  | @braces s t hs ht =>
    have hinner := hs.close_eq (t ++ '}' :: r)
    simpa using close_cons_of_close [.code] rfl hinner (ht.close_eq r)
  | @string quote s t hquote hs ht =>
    have hinner := hs.close_eq (by rintro rfl; simp at hquote) (t ++ '}' :: r)
    have hnext : next quote (s ++ quote :: (t ++ '}' :: r)).head? .code =
        [.string quote] ++ [.code] := by
      rcases hquote with rfl | rfl <;> rfl
    simpa using close_cons_of_close _ hnext hinner (ht.close_eq r)
  | @lineComment s t hs ht =>
    have hinner : close [.lineComment] ('/' :: (s ++ '\n' :: (t ++ '}' :: r))) =
        some ('/' :: (s ++ ['\n']), t ++ '}' :: r) :=
      close_cons_of_next rfl (close_lineComment hs _)
    simpa using close_cons_of_close [.lineComment] rfl hinner (ht.close_eq r)
  | @blockComment s t hs ht =>
    have hinner : close [.any, .blockComment] ('*' :: (s ++ '*' :: '/' :: (t ++ '}' :: r))) =
        some ('*' :: (s ++ ['*', '/']), t ++ '}' :: r) := by
      rw [close_any_cons, close_blockComment hs]
      rfl
    simpa using close_cons_of_close [.any, .blockComment] rfl hinner (ht.close_eq r)
  | @template s t hs ht =>
    have hinner := hs.close_eq (t ++ '}' :: r)
    simpa using close_cons_of_close [.template] rfl hinner (ht.close_eq r)
termination_by t.length
decreasing_by all_goals simp only [List.cons_append, List.length_cons, List.length_append]; omega

/-- A balanced body is read up to the backtick behind it. -/
theorem BalancedBody.close_eq {t : Text} (h : BalancedBody t) (r : Text) :
    close [.template] (t ++ '`' :: r) = some (t ++ ['`'], r) := by
  cases h with
  | nil => simp [close_cons_cons, next]
  | @char c t htick hescape hdollar ht =>
    refine close_cons_of_next (next_template_eq_self htick hescape ?_) (ht.close_eq r)
    intro u hc hu
    -- a backtick follows the body, so that a brace behind a dollar sign is part of it
    cases t with
    | nil => simp at hu
    | cons d t => exact hdollar hc (by simp_all)
  | @escape c t ht =>
    rw [List.cons_append, List.cons_append, close_template_escape, ht.close_eq r]
    rfl
  | @interpolation s t hs ht =>
    have hcode := hs.close_eq (t ++ '`' :: r)
    have hbody := close_template_interpolation hcode
    rw [ht.close_eq r] at hbody
    simpa using hbody
termination_by t.length
decreasing_by all_goals simp only [List.cons_append, List.length_cons, List.length_append]; omega

end

end EmbeddedCss.Host
