import EmbeddedCss.Host.Token

/-! # What is open at a place of host code

Read character by character, host code has at each place a stack of regions that are open there. The
stack is empty outside of every string, comment and template literal; there a brace opens nothing.

The main statements are that closing regions neither looks nor reads past what closes the last of
them, and that between two tokens nothing is open. -/

namespace EmbeddedCss.Host

namespace Region

/-- Whether a region closes does not depend on what stands ahead. -/
theorem next_eq_nil {c : Char} {ahead : Option Char} {r : Region} (h : next c ahead r = [])
    (ahead' : Option Char) : next c ahead' r = [] := by
  cases r <;> simp only [next] at h ⊢ <;> repeat' split at h
  all_goals simp_all

/-- Regions are closed character by character. -/
theorem close_cons_eq_some {q : Region} {outer : List Region} {c : Char} {t l r : Text} :
    close (q :: outer) (c :: t) = some (l, r) ↔
      ∃ l', l = c :: l' ∧ close (q.next c t.head? ++ outer) t = some (l', r) := by
  simp only [close_cons_cons, Option.map_eq_some_iff, Prod.mk.injEq, Prod.exists]
  constructor
  · rintro ⟨l', _, h, rfl, rfl⟩
    exact ⟨l', rfl, h⟩
  · rintro ⟨l', rfl, h⟩
    exact ⟨l', r, h, rfl, rfl⟩

/-- Nothing is read only where nothing is open. -/
theorem eq_nil_of_close {stack : List Region} {s r : Text} (h : close stack s = some ([], r)) :
    stack = [] := by
  cases stack with
  | nil => rfl
  | cons q outer => exact absurd rfl (close_cons_ne_nil h)

/-- Whatever follows, the same is read. -/
theorem close_append_of_close {stack : List Region} {s l r : Text}
    (h : close stack s = some (l, r)) (r' : Text) : close stack (l ++ r') = some (l, r') := by
  induction s generalizing stack l with
  | nil => cases stack <;> simp_all
  | cons c t ih =>
    cases stack with
    | nil => simp_all
    | cons q outer =>
      rw [close_cons_eq_some] at h
      obtain ⟨l, rfl, h⟩ := h
      have hl := ih h
      rw [List.cons_append, close_cons_cons]
      cases l with
      | nil =>
        -- the last character closes the last region, whatever it looks at
        obtain ⟨hnext, rfl⟩ := List.append_eq_nil_iff.1 (eq_nil_of_close h)
        rw [next_eq_nil hnext]
        simp
      | cons d l =>
        have ht : t.head? = some d := by rw [← exact_close _ h]; rfl
        rw [ht] at hl
        rw [List.cons_append, List.head?_cons, ← List.cons_append, hl]
        rfl

theorem close_any_cons (outer : List Region) (c : Char) (s : Text) :
    close (.any :: outer) (c :: s) = (close outer s).map fun p ↦ (c :: p.1, p.2) := rfl

/-! ## Reading a template literal -/

/-- A character that neither closes a template literal nor hides another one nor opens an
interpolation is passed over. -/
theorem next_template_eq_self {c : Char} {s : Text} (htick : c ≠ '`') (hescape : c ≠ '\\')
    (hopen : ∀ t, c = '$' → s ≠ '{' :: t) : next c s.head? .template = [.template] := by
  rw [next, if_neg htick, if_neg hescape, if_neg]
  rintro ⟨hdollar, hhead⟩
  obtain ⟨t, ht⟩ := List.head?_eq_some_iff.1 hhead
  exact hopen t hdollar ht

/-- A backslash and the character behind it are passed over. -/
theorem close_template_escape (c : Char) (s : Text) :
    close [.template] ('\\' :: c :: s) =
      (close [.template] s).map fun p ↦ (['\\', c] ++ p.1, p.2) := by
  have hnext : next '\\' (some c) .template ++ [] = [.any, .template] := rfl
  rw [close_cons_cons, List.head?_cons, hnext, close_any_cons, Option.map_map]
  rfl

/-- Code that is never closed keeps the literal around it open. -/
theorem close_template_of_open {s : Text} (h : close [.code] s = none) :
    close [.template] ('$' :: '{' :: s) = none := by
  have hnext : next '$' (some '{') .template ++ [] = [.any] ++ ([.code] ++ [.template]) := rfl
  rw [close_cons_cons, List.head?_cons, hnext, List.singleton_append, close_any_cons, close_append,
    Scanner.seq, h]
  rfl

/-- An interpolation is passed over. -/
theorem close_template_interpolation {s code rest : Text}
    (h : close [.code] s = some (code, rest)) :
    close [.template] ('$' :: '{' :: s) =
      (close [.template] rest).map fun p ↦ ('$' :: '{' :: code ++ p.1, p.2) := by
  have hnext : next '$' (some '{') .template ++ [] = [.any] ++ ([.code] ++ [.template]) := rfl
  rw [close_cons_cons, List.head?_cons, hnext, List.singleton_append, close_any_cons, close_append,
    Scanner.seq, h, Option.map_map, Option.map_map]
  rfl

/-- Any other character but the backtick is passed over. A backslash at the end of the text hides
nothing. -/
theorem close_template_cons {c : Char} {s : Text} (htick : c ≠ '`')
    (hescape : ∀ d t, c = '\\' → s ≠ d :: t) (hopen : ∀ t, c = '$' → s ≠ '{' :: t) :
    close [.template] (c :: s) = (close [.template] s).map fun p ↦ ([c] ++ p.1, p.2) := by
  by_cases hc : c = '\\'
  · cases s with
    | nil => rw [hc]; rfl
    | cons d t => exact absurd rfl (hescape d t hc)
  · rw [close_cons_cons, next_template_eq_self htick hc hopen]
    rfl

/-! ## What is open -/

/-- What a character opens where nothing is open, with `ahead` the character after it. -/
def opened (c : Char) (ahead : Option Char) : List Region :=
  if c = '\'' ∨ c = '"' then [.string c]
  else if c = '`' then [.template]
  else if c = '/' ∧ ahead = some '/' then [.lineComment]
  else if c = '/' ∧ ahead = some '*' then [.any, .blockComment]
  else []

/-- What is open after one more character. -/
def step (c : Char) (ahead : Option Char) : List Region → List Region
  | [] => opened c ahead
  | r :: outer => r.next c ahead ++ outer

/-- What is open after some text that `rest` follows. -/
def openAfter (stack : List Region) : (t rest : Text) → List Region
  | [], _ => stack
  | c :: t, rest => openAfter (step c (t ++ rest).head? stack) t rest

@[simp] theorem openAfter_nil (stack : List Region) (rest : Text) :
    openAfter stack [] rest = stack := rfl

theorem openAfter_cons (stack : List Region) (c : Char) (t rest : Text) :
    openAfter stack (c :: t) rest = openAfter (step c (t ++ rest).head? stack) t rest := rfl

theorem openAfter_append (stack : List Region) (s t rest : Text) :
    openAfter stack (s ++ t) rest = openAfter (openAfter stack s (t ++ rest)) t rest := by
  induction s generalizing stack with
  | nil => rfl
  | cons c s ih => rw [List.cons_append, openAfter_cons, ih, openAfter_cons, List.append_assoc]

/-- Once the inner regions are closed, the outer ones are open again. -/
theorem openAfter_append_of_close {stack : List Region} {s l r : Text}
    (h : close stack s = some (l, r)) (outer : List Region) :
    openAfter (stack ++ outer) l r = outer := by
  induction s generalizing stack l with
  | nil => cases stack <;> simp_all
  | cons c t ih =>
    cases stack with
    | nil => simp_all
    | cons q stack =>
      rw [close_cons_eq_some] at h
      obtain ⟨l, rfl, h⟩ := h
      rw [List.cons_append, openAfter_cons, exact_close _ h, step, ← List.append_assoc]
      exact ih h

/-- Once all regions are closed, nothing is open. -/
theorem openAfter_of_close {stack : List Region} {s l r : Text} (h : close stack s = some (l, r)) :
    openAfter stack l r = [] := by
  simpa using openAfter_append_of_close h []

/-- In front of the character that closes the outermost region, that region alone is open. -/
theorem ClosesAt.openAfter_dropLast {q : Region} {closer : Char} (hq : q.ClosesAt closer)
    (inner : List Region) {s l r : Text} (h : close (inner ++ [q]) s = some (l, r)) :
    openAfter (inner ++ [q]) l.dropLast (closer :: r) = [q] := by
  induction s generalizing inner l with
  | nil => cases inner <;> simp at h
  | cons c t ih =>
    -- as long as the region stays open, the text that is left holds what closes it
    have key : ∀ {inner' : List Region} {l' : Text}, step c t.head? (inner ++ [q]) = inner' ++ [q] →
        close (inner' ++ [q]) t = some (l', r) →
        openAfter (inner ++ [q]) (c :: l').dropLast (closer :: r) = [q] := by
      intro inner' l' hstep h'
      have hne : l' ≠ [] := by
        cases inner' <;> exact close_cons_ne_nil h'
      have hrest : l'.dropLast ++ closer :: r = t := by
        rw [← List.singleton_append, ← List.append_assoc, hq.dropLast_append _ h',
          exact_close _ h']
      rw [List.dropLast_cons_of_ne_nil hne, openAfter_cons, hrest, hstep]
      exact ih _ h'
    cases inner with
    | nil =>
      rw [List.nil_append, close_cons_eq_some, List.append_nil] at h
      obtain ⟨l', rfl, h⟩ := h
      rcases hq c t.head? with ⟨rfl, hnext⟩ | ⟨inner, hnext⟩
      · rw [hnext, close_nil, Option.some.injEq, Prod.mk.injEq] at h
        rw [← h.1]
        rfl
      · rw [hnext] at h
        exact key (by rw [List.nil_append, step, hnext, List.append_nil]) h
    | cons p inner =>
      rw [List.cons_append, close_cons_eq_some, ← List.append_assoc] at h
      obtain ⟨l', rfl, h⟩ := h
      exact key (by rw [List.cons_append, step, List.append_assoc]) h

end Region

open Region

/-- A region that is read on to its end, in front of something, is closed. -/
theorem close_of_readOn {q : Region} {s : Text} (h : (q.readOn s).2 ≠ []) :
    close [q] s = some (q.readOn s) := by
  unfold Region.readOn at h ⊢
  cases hclose : close [q] s with
  | none => simp [hclose] at h
  | some p => rfl

theorem openAfter_readOn {q : Region} {s : Text} (h : (q.readOn s).2 ≠ []) :
    openAfter [q] (q.readOn s).1 (q.readOn s).2 = [] :=
  openAfter_of_close (close_of_readOn h)

/-- The first token is cut off the text. If anything follows, nothing is open behind it. -/
theorem exists_of_tokens_eq_cons {s : Text} {first : Token} {ts : List Token}
    (h : tokens s = first :: ts) :
    ∃ r, s = first.text ++ r ∧ tokens r = ts ∧ (r ≠ [] → openAfter [] first.text r = []) := by
  fun_induction tokens s with
  | case1 => simp at h
  | case2 s =>
    obtain ⟨rfl, hts⟩ := List.cons.inj h
    refine ⟨_, ?_, hts, fun hr ↦ openAfter_readOn hr⟩
    simp [Token.text, Region.append_readOn]
  | case3 s =>
    obtain ⟨rfl, hts⟩ := List.cons.inj h
    refine ⟨_, ?_, hts, fun hr ↦ openAfter_readOn hr⟩
    simp [Token.text, Region.append_readOn]
  | case4 c s _ _ hquote =>
    obtain ⟨rfl, hts⟩ := List.cons.inj h
    refine ⟨_, by simp [Token.text, Region.append_readOn], hts, fun hr ↦ ?_⟩
    rw [Token.text, openAfter_cons, step, opened, if_pos hquote]
    exact openAfter_readOn hr
  | case5 s body rest hclose =>
    obtain ⟨rfl, hts⟩ := List.cons.inj h
    have htext : (Token.template body.dropLast).text = '`' :: body := by
      rw [Token.text, List.cons_append, closesAt_template.dropLast_append [] hclose]
    refine ⟨rest, ?_, hts, fun _ ↦ ?_⟩
    · rw [htext, List.cons_append, exact_close _ hclose]
    · rw [htext, openAfter_cons]
      exact @openAfter_of_close [.template] _ _ _ hclose
  | case6 s hquote htick hclose =>
    obtain ⟨rfl, rfl⟩ := List.cons.inj h
    exact ⟨[], (List.append_nil _).symm, by rw [tokens], fun hr ↦ absurd rfl hr⟩
  | case7 c s hline hblock hquote htick =>
    obtain ⟨rfl, hts⟩ := List.cons.inj h
    refine ⟨s, rfl, hts, fun _ ↦ ?_⟩
    rw [Token.text, openAfter_cons, step, opened, if_neg hquote, if_neg htick, if_neg, if_neg]
    · rfl
    · rintro ⟨rfl, hhead⟩
      obtain ⟨t, ht⟩ := List.head?_eq_some_iff.1 hhead
      exact hblock t rfl ht
    · rintro ⟨rfl, hhead⟩
      obtain ⟨t, ht⟩ := List.head?_eq_some_iff.1 hhead
      exact hline t rfl ht

/-- What is left of the tokens of a text are the tokens of what is left of it, and nothing is open
there. -/
theorem tokens_append {s : Text} {ts ts' : List Token} (h : tokens s = ts ++ ts') :
    tokens (ts'.flatMap Token.text) = ts' ∧
      (ts' ≠ [] → openAfter [] (ts.flatMap Token.text) (ts'.flatMap Token.text) = []) := by
  induction ts generalizing s with
  | nil =>
    rw [← h.trans (List.nil_append _), flatMap_text_tokens]
    exact ⟨rfl, fun _ ↦ rfl⟩
  | cons first ts ih =>
    obtain ⟨r, -, hr, hopen⟩ := exists_of_tokens_eq_cons h
    replace hr : tokens r = ts ++ ts' := hr
    obtain ⟨htokens, hrest⟩ := ih hr
    refine ⟨htokens, fun hne ↦ ?_⟩
    have htext : ts.flatMap Token.text ++ ts'.flatMap Token.text = r := by
      rw [← List.flatMap_append, ← hr, flatMap_text_tokens]
    have hr' : r ≠ [] := by
      rintro rfl
      simp [tokens, hne] at hr
    rw [List.flatMap_cons, openAfter_append, htext, hopen hr', hrest hne]

end EmbeddedCss.Host
