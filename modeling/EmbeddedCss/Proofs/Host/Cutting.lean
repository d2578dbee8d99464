import EmbeddedCss.Proofs.Host.Balanced

/-! # Where tokens end

Tokens are cut off the front of a text one by one. The main statements are that a token with
another one behind it is closed, so that its text ends with what closes it, and that the tokens in
front of a place depend on what follows it only through the next character. -/

namespace EmbeddedCss.Host

open Region

/-! ## What closes a region -/

/-- The end of its line closes a comment. -/
theorem exists_of_close_lineComment {s l r : Text} (h : close [.lineComment] s = some (l, r)) :
    ∃ l', l = l' ++ ['\n'] ∧ '\n' ∉ l' := by
  induction s generalizing l with
  | nil => simp at h
  | cons c s ih =>
    rw [close_cons_eq_some, List.append_nil] at h
    obtain ⟨l, rfl, h⟩ := h
    by_cases hc : c = '\n'
    · rw [next, if_pos hc, close_nil] at h
      obtain ⟨rfl, -⟩ : [] = l ∧ s = r := by simpa using h
      exact ⟨[], by rw [hc]; rfl, by simp⟩
    · rw [next, if_neg hc] at h
      obtain ⟨l', rfl, hl'⟩ := ih h
      exact ⟨c :: l', rfl, by simp [Ne.symm hc, hl']⟩

/-- A star and a slash close a comment. -/
theorem exists_of_close_blockComment {s l r : Text} (h : close [.blockComment] s = some (l, r)) :
    ∃ l', l = l' ++ ['*', '/'] := by
  induction s generalizing l with
  | nil => simp at h
  | cons c s ih =>
    rw [close_cons_eq_some, List.append_nil] at h
    obtain ⟨l, rfl, h⟩ := h
    by_cases hc : c = '*' ∧ s.head? = some '/'
    · obtain ⟨rfl, hhead⟩ := hc
      obtain ⟨s, rfl⟩ := List.head?_eq_some_iff.1 hhead
      obtain ⟨rfl, -⟩ : ['/'] = l ∧ s = r := by simpa [next, close_any_cons] using h
      exact ⟨[], rfl⟩
    · rw [next, if_neg hc] at h
      obtain ⟨l', rfl⟩ := ih h
      exact ⟨c :: l', rfl⟩

/-- Its quote or the end of its line closes a string. -/
theorem exists_of_close_string {quote : Char} {s l r : Text}
    (h : close [.string quote] s = some (l, r)) :
    ∃ l' c, l = l' ++ [c] ∧ (c = quote ∨ c = '\n') := by
  induction hn : s.length using Nat.strongRecOn generalizing s l with
  | ind n ih =>
    cases s with
    | nil => simp at h
    | cons c s =>
      rw [close_cons_eq_some, List.append_nil] at h
      obtain ⟨l, rfl, h⟩ := h
      by_cases hc : c = quote ∨ c = '\n'
      · rw [next, if_pos hc, close_nil] at h
        obtain ⟨rfl, -⟩ : [] = l ∧ s = r := by simpa using h
        exact ⟨[], c, rfl, hc⟩
      · rw [next, if_neg hc] at h
        split at h
        · -- the character behind a backslash closes nothing
          cases s with
          | nil => simp at h
          | cons d s =>
            rw [close_cons_eq_some] at h
            obtain ⟨l, rfl, h⟩ := h
            obtain ⟨l', e, rfl, he⟩ := ih s.length (by simp at hn; omega) h rfl
            exact ⟨c :: d :: l', e, rfl, he⟩
        · obtain ⟨l', e, rfl, he⟩ := ih s.length (by simp at hn; omega) h rfl
          exact ⟨c :: l', e, rfl, he⟩

/-! ## Closed tokens -/

theorem Token.text_ne_nil (token : Token) : token.text ≠ [] := by
  cases token <;> simp [Token.text]

/-- A token that ends with what closes it. -/
def Token.IsClosed : Token → Prop
  | .code _ | .template _ => True
  | .string quote tail => (quote = '\'' ∨ quote = '"') ∧
      ∃ t c, tail = t ++ [c] ∧ (c = quote ∨ c = '\n')
  | .lineComment tail => ∃ t, tail = t ++ ['\n'] ∧ '\n' ∉ t
  | .blockComment tail => ∃ t, tail = t ++ ['*', '/']
  | .unclosed _ => False

/-- A region with something behind it is closed, and whatever follows instead, the same is read. -/
theorem close_of_readOn_append {q : Region} {s r : Text} (hs : s = (q.readOn s).1 ++ r)
    (hr : r ≠ []) : close [q] s = some ((q.readOn s).1, r) ∧
      ∀ r' : Text, q.readOn ((q.readOn s).1 ++ r') = ((q.readOn s).1, r') := by
  obtain rfl : (q.readOn s).2 = r :=
    List.append_cancel_left ((q.append_readOn s).trans hs)
  have hclose : close [q] s = some ((q.readOn s).1, (q.readOn s).2) := close_of_readOn hr
  refine ⟨hclose, fun r' ↦ ?_⟩
  rw [Region.readOn, close_append_of_close hclose]
  rfl

/-- A backtick starts a template literal, if one closes it. -/
theorem tokens_backtick {s l r : Text} (h : close [.template] s = some (l, r)) :
    tokens ('`' :: s) = .template l.dropLast :: tokens r := by
  rw [tokens, if_neg (by decide), if_pos rfl]
  · split
    · rename_i hclose
      cases h.symm.trans hclose
      rfl
    · rename_i hclose
      cases h.symm.trans hclose
  · simp
  · simp

/-- The first token of a text is closed if anything follows it, and it comes first again in front of
all that starts with the same character. -/
theorem isClosed_of_tokens_eq_cons {s r : Text} {first : Token} {ts : List Token}
    (h : tokens s = first :: ts) (hs : s = first.text ++ r) (hr : r ≠ []) :
    first.IsClosed ∧
      ∀ r' : Text, r'.head? = r.head? → tokens (first.text ++ r') = first :: tokens r' := by
  fun_induction tokens s with
  | case1 => simp at h
  | case2 s =>
    obtain ⟨rfl, -⟩ := List.cons.inj h
    obtain ⟨hclose, hread⟩ := close_of_readOn_append (by simpa [Token.text] using hs) hr
    refine ⟨exists_of_close_lineComment hclose, fun r' _ ↦ ?_⟩
    rw [Token.text, List.cons_append, List.cons_append, tokens, hread]
  | case3 s =>
    obtain ⟨rfl, -⟩ := List.cons.inj h
    obtain ⟨hclose, hread⟩ := close_of_readOn_append (by simpa [Token.text] using hs) hr
    refine ⟨exists_of_close_blockComment hclose, fun r' _ ↦ ?_⟩
    rw [Token.text, List.cons_append, List.cons_append, tokens, hread]
  | case4 c s _ _ hquote =>
    obtain ⟨rfl, -⟩ := List.cons.inj h
    obtain ⟨hclose, hread⟩ := close_of_readOn_append (by simpa [Token.text] using hs) hr
    refine ⟨⟨hquote, exists_of_close_string hclose⟩, fun r' _ ↦ ?_⟩
    rw [Token.text, List.cons_append, tokens, if_pos hquote, hread]
    · rintro t rfl
      simp at hquote
    · rintro t rfl
      simp at hquote
  | case5 s body rest hclose =>
    obtain ⟨rfl, -⟩ := List.cons.inj h
    have hbody := closesAt_template.dropLast_append [] hclose
    refine ⟨trivial, fun r' _ ↦ ?_⟩
    rw [Token.text, List.cons_append, hbody, List.cons_append,
      tokens_backtick (close_append_of_close hclose r')]
  | case6 s hquote htick hclose =>
    obtain ⟨rfl, -⟩ := List.cons.inj h
    simp [Token.text] at hs
    exact absurd hs hr
  | case7 c s hline hblock hquote htick =>
    obtain ⟨rfl, -⟩ := List.cons.inj h
    obtain rfl : s = r := by simpa [Token.text] using hs
    refine ⟨trivial, fun r' hhead ↦ ?_⟩
    rw [Token.text, List.singleton_append, tokens, if_neg hquote, if_neg htick]
    · rintro t hc rfl
      obtain ⟨u, hu⟩ := List.head?_eq_some_iff.1 hhead.symm
      exact hline u hc hu
    · rintro t hc rfl
      obtain ⟨u, hu⟩ := List.head?_eq_some_iff.1 hhead.symm
      exact hblock u hc hu

/-- Every token with another one behind it is closed. -/
theorem isClosed_of_tokens {s : Text} {ts₁ ts₂ : List Token} (h : tokens s = ts₁ ++ ts₂)
    (hts : ts₂ ≠ []) {token : Token} (htoken : token ∈ ts₁) : token.IsClosed := by
  obtain ⟨as, bs, rfl⟩ := List.append_of_mem htoken
  rw [List.append_assoc, List.cons_append] at h
  have htokens := (tokens_append h).1
  refine (isClosed_of_tokens_eq_cons htokens (List.flatMap_cons ..) ?_).1
  obtain ⟨next, ts₂, rfl⟩ := List.exists_cons_of_ne_nil hts
  simp [next.text_ne_nil]

/-- The tokens in front of a place depend on what follows it only through the next character. -/
theorem tokens_flatMap_append {ts : List Token} {r r' : Text}
    (h : tokens (ts.flatMap Token.text ++ r) = ts ++ tokens r) (hr : r ≠ [])
    (hhead : r'.head? = r.head?) : tokens (ts.flatMap Token.text ++ r') = ts ++ tokens r' := by
  induction ts with
  | nil => rfl
  | cons first ts ih =>
    rw [List.flatMap_cons, List.append_assoc] at h ⊢
    obtain ⟨s, hs, hrest, -⟩ := exists_of_tokens_eq_cons h
    obtain rfl := List.append_cancel_left hs
    -- what follows the first token starts with the same character
    have hnext : (ts.flatMap Token.text ++ r').head? = (ts.flatMap Token.text ++ r).head? := by
      cases ts with
      | nil => exact hhead
      | cons second ts =>
        obtain ⟨c, t, ht⟩ := List.exists_cons_of_ne_nil second.text_ne_nil
        simp [ht]
    have hfirst := (isClosed_of_tokens_eq_cons h rfl (by simp [hr])).2 _ hnext
    rw [hfirst, ih hrest]
    rfl

/-! ## Tokens in front of a byte -/

/-- The tokens that end within the first `n` bytes. -/
def tokensWithin (n : Nat) : List Token → List Token
  | [] => []
  | token :: ts =>
    if n < Text.size token.text then [] else token :: tokensWithin (n - Text.size token.text) ts

theorem tokensWithin_append (ts₁ : List Token) (token : Token) (ts₂ : List Token) :
    tokensWithin (Text.size (ts₁.flatMap Token.text)) (ts₁ ++ token :: ts₂) = ts₁ := by
  induction ts₁ with
  | nil => exact if_pos (Text.size_pos token.text_ne_nil)
  | cons first ts₁ ih =>
    rw [List.flatMap_cons, Text.size_append, List.cons_append, tokensWithin, if_neg (by omega),
      Nat.add_sub_cancel_left, ih]

end EmbeddedCss.Host
