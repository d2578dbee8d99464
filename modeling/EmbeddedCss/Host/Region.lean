import EmbeddedCss.Parser.Scanner

/-! # Regions of host code

Host code is read only as far as it takes to find where things end. What is open at a place is a
stack of regions, the innermost first, and each character either stays in the innermost region,
closes it, or opens others inside it.

The main statements are that reading to the end of a stack of regions loses nothing, and that it
can be cut at any point of the stack: first the inner regions are closed, then the outer ones. -/

namespace EmbeddedCss.Host

/-- A stretch of host code that is read to its end. -/
inductive Region where
  /-- Code in braces. -/
  | code
  /-- A template literal. -/
  | template
  /-- A string in the given quotes. -/
  | string (quote : Char)
  /-- A comment that ends with its line. -/
  | lineComment
  /-- A comment that ends with a star and a slash. -/
  | blockComment
  /-- A single character, whichever it is. -/
  | any
deriving DecidableEq, Repr

namespace Region

/-- What is open instead of a region once it has read `c`, with `ahead` the character after that.

Strings and template literals hide the character after a backslash. A string ends with its line at
the latest. Braces nest in code, and so do strings, comments and template literals; a template
literal goes back to code at a dollar sign with a brace. -/
def next (c : Char) (ahead : Option Char) : Region → List Region
  | .code =>
    if c = '}' then []
    else if c = '{' then [.code, .code]
    else if c = '\'' ∨ c = '"' then [.string c, .code]
    else if c = '`' then [.template, .code]
    else if c = '/' ∧ ahead = some '/' then [.lineComment, .code]
    else if c = '/' ∧ ahead = some '*' then [.any, .blockComment, .code]
    else [.code]
  | .template =>
    if c = '`' then []
    else if c = '\\' then [.any, .template]
    else if c = '$' ∧ ahead = some '{' then [.any, .code, .template]
    else [.template]
  | .string quote =>
    if c = quote ∨ c = '\n' then []
    else if c = '\\' then [.any, .string quote]
    else [.string quote]
  | .lineComment => if c = '\n' then [] else [.lineComment]
  | .blockComment => if c = '*' ∧ ahead = some '/' then [.any] else [.blockComment]
  | .any => []

/-- Read until every region of a stack is closed, with what closes the last of them. A text that
ends before that is refused. -/
def close : List Region → Scanner
  | [], s => some ([], s)
  | _ :: _, [] => none
  | r :: outer, c :: t => (close (r.next c t.head? ++ outer) t).map fun p ↦ (c :: p.1, p.2)

@[simp] theorem close_nil (s : Text) : close [] s = some ([], s) := by
  cases s <;> rfl

@[simp] theorem close_cons_nil (r : Region) (outer : List Region) :
    close (r :: outer) [] = none := rfl

theorem close_cons_cons (r : Region) (outer : List Region) (c : Char) (t : Text) :
    close (r :: outer) (c :: t) =
      (close (r.next c t.head? ++ outer) t).map fun p ↦ (c :: p.1, p.2) := rfl

/-- Reading regions loses nothing. -/
theorem exact_close (stack : List Region) : (close stack).Exact := by
  intro s
  induction s generalizing stack with
  | nil => cases stack <;> simp
  | cons c t ih =>
    intro l r h
    cases stack with
    | nil => simp_all
    | cons q outer =>
      simp only [close_cons_cons, Option.map_eq_some_iff, Prod.mk.injEq, Prod.exists] at h
      obtain ⟨l', _, h, rfl, rfl⟩ := h
      simp [ih _ h]

/-- The regions of a stack are closed from the inside out. -/
theorem close_append (inner outer : List Region) (s : Text) :
    close (inner ++ outer) s = (close inner).seq (close outer) s := by
  induction s generalizing inner with
  | nil => cases inner <;> simp [Scanner.seq]
  | cons c t ih =>
    cases inner with
    | nil => simp [Scanner.seq]
    | cons q inner =>
      rw [List.cons_append, close_cons_cons, ← List.append_assoc, ih]
      simp only [Scanner.seq, close_cons_cons]
      cases close (q.next c t.head? ++ inner) t with
      | none => rfl
      | some p => simp [Function.comp_def]

/-- Closing a region takes a character at least. -/
theorem close_cons_ne_nil {r : Region} {outer : List Region} {s l rest : Text}
    (h : close (r :: outer) s = some (l, rest)) : l ≠ [] := by
  cases s with
  | nil => simp at h
  | cons c t =>
    simp only [close_cons_cons, Option.map_eq_some_iff, Prod.mk.injEq, Prod.exists] at h
    obtain ⟨_, _, _, rfl, -⟩ := h
    simp

/-- A region that closes at `closer` and nowhere else, and stays open below whatever opens in it. -/
def ClosesAt (r : Region) (closer : Char) : Prop := ∀ c ahead,
  (c = closer ∧ next c ahead r = []) ∨ ∃ inner, next c ahead r = inner ++ [r]

/-- Code closes at its brace. -/
theorem closesAt_code : ClosesAt .code '}' := by
  intro c ahead
  simp only [next]
  repeat' split
  · exact .inl ⟨by assumption, rfl⟩
  · exact .inr ⟨[.code], rfl⟩
  · exact .inr ⟨[.string c], rfl⟩
  · exact .inr ⟨[.template], rfl⟩
  · exact .inr ⟨[.lineComment], rfl⟩
  · exact .inr ⟨[.any, .blockComment], rfl⟩
  · exact .inr ⟨[], rfl⟩

/-- A template literal closes at its backtick. -/
theorem closesAt_template : ClosesAt .template '`' := by
  intro c ahead
  simp only [next]
  repeat' split
  · exact .inl ⟨by assumption, rfl⟩
  · exact .inr ⟨[.any], rfl⟩
  · exact .inr ⟨[.any, .code], rfl⟩
  · exact .inr ⟨[], rfl⟩

/-- The last character that is read is the one that closes the outermost region. -/
theorem ClosesAt.dropLast_append {r : Region} {closer : Char} (hr : r.ClosesAt closer)
    (inner : List Region) {s l rest : Text} (h : close (inner ++ [r]) s = some (l, rest)) :
    l.dropLast ++ [closer] = l := by
  induction s generalizing inner l with
  | nil => cases inner <;> simp at h
  | cons c t ih =>
    have key : ∀ {inner : List Region} {l' : Text}, close (inner ++ [r]) t = some (l', rest) →
        (c :: l').dropLast ++ [closer] = c :: l' := by
      intro inner l' h
      have hne : l' ≠ [] := by
        cases inner <;> exact close_cons_ne_nil h
      rw [List.dropLast_cons_of_ne_nil hne, List.cons_append, ih _ h]
    cases inner with
    | nil =>
      rw [List.nil_append, close_cons_cons, List.append_nil] at h
      simp only [Option.map_eq_some_iff, Prod.mk.injEq, Prod.exists] at h
      obtain ⟨l', _, h, rfl, rfl⟩ := h
      rcases hr c t.head? with ⟨rfl, e⟩ | ⟨inner, e⟩ <;> rw [e] at h
      · simp only [close_nil, Option.some.injEq, Prod.mk.injEq] at h
        simp [← h.1]
      · exact key h
    | cons q inner =>
      rw [List.cons_append, close_cons_cons, ← List.append_assoc] at h
      simp only [Option.map_eq_some_iff, Prod.mk.injEq, Prod.exists] at h
      obtain ⟨l', _, h, rfl, rfl⟩ := h
      exact key h

theorem productive_close_cons (r : Region) (outer : List Region) :
    (close (r :: outer)).Productive :=
  ⟨exact_close _, fun _ _ _ ↦ close_cons_ne_nil⟩

end Region

end EmbeddedCss.Host
