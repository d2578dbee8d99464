import EmbeddedCss.Proofs.Host.Collection
import EmbeddedCss.Proofs.Host.Cutting
import Mathlib.Data.List.Induction

/-! # Where tags come from

The tag of a literal is looked up in the text in front of it, from the backtick to the left, without
regard to what is code there. White space is passed over on the way, line feeds among it. A comment
or a string that its line ends has only a line feed for an end, so that the look-up can get into it.

The main statement says that this is the only way in: a tag comes from code exactly if the last
token in front of the literal that is no white space is code, and otherwise this token is a comment
or a string that its line ends, and the whole tag stands in it. -/

namespace EmbeddedCss.Host

/-- Whether a token is a character of code. -/
def Token.isCode : Token → Bool
  | .code _ => true
  | _ => false

/-- Whether a token is white space between the others. -/
def Token.isSpace : Token → Bool
  | .code c => Text.isSpace c
  | _ => false

/-- Whether it is the end of its line that closes a token. -/
def Token.endsWithLine : Token → Bool
  | .lineComment _ => true
  | .string _ tail => tail.getLast? == some '\n'
  | _ => false

/-- The token that takes the byte at `n`. -/
def tokenAt (n : Nat) : List Token → Option Token
  | [] => none
  | token :: ts =>
    if n < Text.size token.text then some token else tokenAt (n - Text.size token.text) ts

/-- Every byte of the word in front of a literal is code, and none is part of a string, a comment or
another literal. -/
def Tagged.IsFromCode (source : Text) (f : Tagged) : Prop :=
  ∀ n, f.wordSpan.contains n = true → ∃ c, tokenAt n (tokens source) = some (.code c)

/-- The last token in front of a literal that is no white space. -/
def Tagged.tokenBefore (source : Text) (f : Tagged) : Option Token :=
  (tokensWithin (f.content.start - 1) (tokens source)).reverse.find? fun token ↦ !token.isSpace

/-! ## Tokens and bytes -/

/-- A byte behind some tokens is taken by one of those that follow. -/
theorem tokenAt_append {ts₁ : List Token} {n : Nat}
    (hle : Text.size (ts₁.flatMap Token.text) ≤ n) (ts₂ : List Token) :
    tokenAt n (ts₁ ++ ts₂) = tokenAt (n - Text.size (ts₁.flatMap Token.text)) ts₂ := by
  induction ts₁ generalizing n with
  | nil => rfl
  | cons first ts₁ ih =>
    rw [List.flatMap_cons, Text.size_append] at hle ⊢
    rw [List.cons_append, tokenAt, if_neg (by omega), ih (by omega), Nat.sub_sub]

/-- A byte of some tokens is taken by one of them. -/
theorem exists_mem_tokenAt {ts : List Token} {n : Nat} (hlt : n < Text.size (ts.flatMap Token.text))
    (ts₂ : List Token) : ∃ token ∈ ts, tokenAt n (ts ++ ts₂) = some token := by
  induction ts generalizing n with
  | nil => simp at hlt
  | cons first ts ih =>
    rw [List.flatMap_cons, Text.size_append] at hlt
    rw [List.cons_append, tokenAt]
    split
    · exact ⟨first, List.mem_cons_self .., rfl⟩
    · obtain ⟨token, hmem, htoken⟩ := ih (n := n - Text.size first.text) (by omega)
      exact ⟨token, List.mem_cons_of_mem _ hmem, htoken⟩

/-- Characters of code make up their text. -/
@[simp] theorem flatMap_text_map_code (w : Text) : (w.map Token.code).flatMap Token.text = w := by
  simp [List.flatMap_map, Token.text]

/-! ## Closed tokens -/

theorem Token.exists_code_of_isCode {token : Token} (h : token.isCode = true) :
    ∃ c, token = .code c := by
  cases token with
  | code c => exact ⟨c, rfl⟩
  | _ => simp [isCode] at h

/-- A token that is no code starts with a character that ends a word. -/
theorem Token.IsClosed.exists_cons {token : Token} (h : token.IsClosed)
    (hcode : token.isCode = false) : ∃ c t, token.text = c :: t ∧ endsWord c = true := by
  cases token with
  | code c => simp [isCode] at hcode
  | string quote tail =>
    obtain ⟨hquote, -⟩ := h
    refine ⟨quote, tail, rfl, ?_⟩
    rcases hquote with rfl | rfl <;> rfl
  | lineComment tail => exact ⟨'/', '/' :: tail, rfl, rfl⟩
  | blockComment tail => exact ⟨'/', '*' :: tail, rfl, rfl⟩
  | template body => exact ⟨'`', body ++ ['`'], rfl, rfl⟩
  | unclosed tail => exact ⟨'`', tail, rfl, rfl⟩

/-- A token that is no code ends with a character that ends a word, or with its line. -/
theorem Token.IsClosed.exists_concat {token : Token} (h : token.IsClosed)
    (hcode : token.isCode = false) : ∃ t c, token.text = t ++ [c] ∧
      (endsWord c = true ∨ c = '\n' ∧ token.endsWithLine = true) := by
  cases token with
  | code c => simp [isCode] at hcode
  | string quote tail =>
    obtain ⟨hquote, t, c, rfl, rfl | rfl⟩ := h
    · refine ⟨c :: t, c, rfl, .inl ?_⟩
      rcases hquote with rfl | rfl <;> rfl
    · exact ⟨quote :: t, '\n', rfl, .inr ⟨rfl, by simp [endsWithLine]⟩⟩
  | lineComment tail =>
    obtain ⟨t, rfl, -⟩ := h
    exact ⟨'/' :: '/' :: t, '\n', rfl, .inr ⟨rfl, rfl⟩⟩
  | blockComment tail =>
    obtain ⟨t, rfl⟩ := h
    exact ⟨'/' :: '*' :: (t ++ ['*']), '/', by simp [text], .inl rfl⟩
  | template body => exact ⟨'`' :: body, '`', rfl, .inl rfl⟩
  | unclosed tail => exact h.elim

/-! ## The word in front of a literal -/

/-- White space at the end of a text is no part of its last word. -/
theorem lastWord_append_of_space (space : Text) (h : ∀ c ∈ space, Text.isSpace c = true)
    (u : Text) : lastWord (space ++ u) = lastWord u := by
  have hdrop : (space ++ u).dropWhile Text.isSpace = u.dropWhile Text.isSpace := by
    induction space with
    | nil => rfl
    | cons c space ih =>
      rw [List.cons_append, List.dropWhile_cons_of_pos (h c (List.mem_cons_self ..))]
      exact ih fun d hd ↦ h d (List.mem_cons_of_mem _ hd)
  simp only [lastWord, hdrop]

/-- There is no word where the last character cannot be part of one. -/
theorem lastWord_cons {c : Char} (hc : endsWord c = true) (u : Text) :
    (lastWord (c :: u)).1 = [] := by
  rw [← List.nil_append (c :: u), lastWord_append_cons hc]
  rfl

/-- A literal that counts has a word in front of it. -/
theorem lastWord_ne_nil_of_counts {o : Options} {seen : Text} (h : counts o seen = true) :
    (lastWord seen).1 ≠ [] := by
  intro hnil
  rw [counts, tagAfter, hnil] at h
  simp [trimDots] at h

/-- A word takes the byte at its start. -/
theorem contains_start_wordSpanAfter {seen : Text} (h : (lastWord seen).1 ≠ []) :
    (wordSpanAfter seen).contains (wordSpanAfter seen).start = true := by
  simpa [wordSpanAfter] using Text.size_pos h

/-- Among closed tokens, the run of word characters at the end is code. -/
theorem exists_code_of_takeWhile {ts : List Token} (h : ∀ token ∈ ts, token.IsClosed) :
    ∃ ts₁, ∃ w : Text, ts = ts₁ ++ w.map Token.code ∧
      (ts.flatMap Token.text).reverse.takeWhile isTagChar = w.reverse ∧
      (ts.flatMap Token.text).reverse.dropWhile isTagChar = (ts₁.flatMap Token.text).reverse := by
  induction ts using List.reverseRecOn with
  | nil => exact ⟨[], [], rfl, rfl, rfl⟩
  | append_singleton ts token ih =>
    have htext : ((ts ++ [token]).flatMap Token.text).reverse =
        token.text.reverse ++ (ts.flatMap Token.text).reverse := by
      simp
    -- the run goes on only through code
    by_cases hword : ∃ c, token = .code c ∧ isTagChar c = true
    · obtain ⟨c, rfl, hc⟩ := hword
      obtain ⟨ts₁, w, rfl, htake, hdrop⟩ := ih fun t ht ↦ h t (List.mem_append_left _ ht)
      refine ⟨ts₁, w ++ [c], by simp, ?_, ?_⟩
      · rw [htext, Token.text, List.reverse_singleton, List.singleton_append,
          List.takeWhile_cons_of_pos hc, htake, List.reverse_append]
        rfl
      · rw [htext, Token.text, List.reverse_singleton, List.singleton_append,
          List.dropWhile_cons_of_pos hc, hdrop]
    · obtain ⟨t, c, ht, hc⟩ : ∃ t c, token.text = t ++ [c] ∧ isTagChar c = false := by
        cases hcode : token.isCode with
        | true =>
          obtain ⟨c, rfl⟩ := Token.exists_code_of_isCode hcode
          exact ⟨[], c, rfl, by simpa using hword⟩
        | false =>
          obtain ⟨t, c, ht, hc⟩ := (h token (by simp)).exists_concat hcode
          refine ⟨t, c, ht, ?_⟩
          rcases hc with hc | ⟨rfl, -⟩
          · exact (by simpa [endsWord] using hc : _ ∧ _).2
          · rfl
      refine ⟨ts ++ [token], [], by simp, ?_, ?_⟩
      · rw [htext, ht]
        simp [hc]
      · rw [htext, ht]
        simp [hc]

/-- White space between tokens is code. -/
theorem exists_space_of_forall {ts : List Token} (h : ∀ token ∈ ts, token.isSpace = true) :
    ∃ space : Text, ts = space.map Token.code ∧ ∀ c ∈ space, Text.isSpace c = true := by
  induction ts with
  | nil => exact ⟨[], rfl, by simp⟩
  | cons token ts ih =>
    obtain ⟨space, rfl, hspace⟩ := ih fun t ht ↦ h t (List.mem_cons_of_mem _ ht)
    have htoken := h token (List.mem_cons_self ..)
    cases token with
    | code c => exact ⟨c :: space, rfl, List.forall_mem_cons.2 ⟨htoken, hspace⟩⟩
    | _ => simp [Token.isSpace] at htoken

/-- The word at the end of some tokens is that of the last of them that is no white space. -/
theorem exists_of_lastWord_ne_nil {ts : List Token}
    (h : (lastWord (ts.flatMap Token.text).reverse).1 ≠ []) :
    ∃ ts₁ token, ∃ space : Text, ts = ts₁ ++ token :: space.map Token.code ∧
      token.isSpace = false ∧ (ts.reverse.find? fun token ↦ !token.isSpace) = some token ∧
      lastWord (ts.flatMap Token.text).reverse =
        lastWord ((ts₁ ++ [token]).flatMap Token.text).reverse := by
  cases hfind : ts.reverse.find? fun token ↦ !token.isSpace with
  | none =>
    obtain ⟨space, rfl, hspace⟩ : ∃ space : Text, ts = space.map Token.code ∧ _ :=
      exists_space_of_forall fun token ht ↦ by
        simpa using List.find?_eq_none.1 hfind token (List.mem_reverse.2 ht)
    have hnil := lastWord_append_of_space space.reverse (by simpa using hspace) []
    rw [List.append_nil] at hnil
    rw [flatMap_text_map_code, hnil] at h
    exact absurd rfl h
  | some token =>
    obtain ⟨htoken, as, bs, hreverse, has⟩ := List.find?_eq_some_iff_append.1 hfind
    obtain ⟨space, hmap, hspace⟩ : ∃ space : Text, as.reverse = space.map Token.code ∧ _ :=
      exists_space_of_forall fun t ht ↦ by simpa using has t (List.mem_reverse.1 ht)
    have hts : ts = bs.reverse ++ token :: space.map Token.code := by
      rw [← hmap, ← List.reverse_reverse ts, hreverse]
      simp
    refine ⟨bs.reverse, token, space, hts, by simpa using htoken, rfl, ?_⟩
    have hword := lastWord_append_of_space space.reverse (by simpa using hspace)
      ((bs.reverse ++ [token]).flatMap Token.text).reverse
    rw [← hword, hts]
    simp

/-! ## The tag of a literal -/

/-- A word at the end of code consists of code. -/
theorem exists_code_tokenAt {ts : List Token} {c : Char} {seen : Text}
    (hseen : seen = ((ts ++ [Token.code c]).flatMap Token.text).reverse)
    (hclosed : ∀ token ∈ ts ++ [Token.code c], token.IsClosed) (hc : Text.isSpace c = false)
    (rest : List Token) {n : Nat} (hn : (wordSpanAfter seen).contains n = true) :
    ∃ d, tokenAt n (ts ++ .code c :: rest) = some (.code d) := by
  obtain ⟨ts₁, w, hts, htake, hdrop⟩ := exists_code_of_takeWhile hclosed
  have hword : lastWord seen = (w, (ts₁.flatMap Token.text).reverse) := by
    have hspace : seen.dropWhile Text.isSpace = seen := by
      rw [hseen]
      simp [Token.text, hc]
    rw [lastWord, hspace, hseen, htake, hdrop, List.reverse_reverse]
  simp only [Span.contains_iff, wordSpanAfter, hword, Text.size_reverse] at hn
  have hrest : ts ++ .code c :: rest = ts₁ ++ (w.map Token.code ++ rest) := by
    rw [← List.singleton_append, ← List.append_assoc, hts, List.append_assoc]
  have hlt : n - Text.size (ts₁.flatMap Token.text) <
      Text.size ((w.map Token.code).flatMap Token.text) := by
    rw [flatMap_text_map_code]
    omega
  obtain ⟨token, hmem, htoken⟩ := exists_mem_tokenAt hlt rest
  obtain ⟨d, -, rfl⟩ := List.mem_map.1 hmem
  exact ⟨d, by rw [hrest, tokenAt_append hn.1, htoken]⟩

/-- A word at the end of a token that is no code stands in this token, which its line ends. -/
theorem tokenAt_of_not_isCode {ts : List Token} {token : Token} {seen : Text}
    (hseen : seen = ((ts ++ [token]).flatMap Token.text).reverse) (hclosed : token.IsClosed)
    (hcode : token.isCode = false) (hword : (lastWord seen).1 ≠ []) :
    token.endsWithLine = true ∧ ∀ (rest : List Token) (n : Nat),
      (wordSpanAfter seen).contains n = true → tokenAt n (ts ++ token :: rest) = some token := by
  replace hseen : seen = token.text.reverse ++ (ts.flatMap Token.text).reverse := by
    rw [hseen]
    simp
  constructor
  · obtain ⟨t, c, ht, hc | ⟨-, hline⟩⟩ := hclosed.exists_concat hcode
    · rw [hseen, ht, List.reverse_append, List.append_assoc] at hword
      exact absurd (lastWord_cons hc _) hword
    · exact hline
  · intro rest n hn
    obtain ⟨c, t, ht, hc⟩ := hclosed.exists_cons hcode
    -- the look-up stops at the first character of the token at the latest
    have hlast : lastWord seen = ((lastWord t.reverse).1,
        (lastWord t.reverse).2 ++ c :: (ts.flatMap Token.text).reverse) := by
      rw [hseen, ht, List.reverse_cons, List.append_assoc, List.singleton_append,
        lastWord_append_cons hc]
    obtain ⟨space, -, hspace⟩ := exists_append_lastWord t.reverse
    have hsize := congrArg Text.size hspace
    simp only [Text.size_append, Text.size_reverse] at hsize
    simp only [Span.contains_iff, wordSpanAfter, hlast, Text.size_append, Text.size_cons,
      Text.size_reverse] at hn
    rw [tokenAt_append (by omega), tokenAt, if_pos]
    rw [ht, Text.size_cons]
    omega

theorem tokenBefore_ofLiteral {source : Text} {ts rest : List Token} {body : Text}
    (h : tokens source = ts ++ .template body :: rest) (t : Template) :
    (Tagged.ofLiteral (ts.flatMap Token.text).reverse body t).tokenBefore source =
      ts.reverse.find? fun token ↦ !token.isSpace := by
  rw [Tagged.tokenBefore, h, Tagged.ofLiteral, Nat.add_sub_cancel, Text.size_reverse,
    tokensWithin_append]

/-- A tag comes from code exactly if the last token in front of the literal that is no white space
is code. Otherwise this token is a comment or a string that its line ends, and the whole tag stands
in it. -/
theorem isFromCode_iff_of_scan {o : Options} {source : Text} {found : List Tagged}
    (h : scan o source = .ok found) {f : Tagged} (hf : f ∈ found) :
    ∃ token, f.tokenBefore source = some token ∧
      (f.IsFromCode source ↔ token.isCode = true) ∧
      (token.isCode = false → token.endsWithLine = true ∧
        ∀ n, f.wordSpan.contains n = true → tokenAt n (tokens source) = some token) := by
  rcases scan_eq_ok_iff.1 h with ⟨-, -, rfl⟩ | ⟨-, hcollects⟩
  · simp at hf
  obtain ⟨ts, body, rest, t, hts, -, hcounts, rfl⟩ := hcollects.exists_literal hf
  rw [List.append_nil] at hcounts ⊢
  have hword := lastWord_ne_nil_of_counts hcounts
  obtain ⟨ts₁, token, space, rfl, hspace, hfind, hlast⟩ := exists_of_lastWord_ne_nil hword
  have hclosed : ∀ t ∈ ts₁ ++ [token], t.IsClosed := by
    intro t ht
    refine isClosed_of_tokens hts (by simp) ?_
    rw [← List.singleton_append, ← List.append_assoc]
    exact List.mem_append_left _ ht
  have hspan : wordSpanAfter ((ts₁ ++ token :: space.map Token.code).flatMap Token.text).reverse =
      wordSpanAfter ((ts₁ ++ [token]).flatMap Token.text).reverse := by
    rw [wordSpanAfter, hlast, wordSpanAfter]
  have htokens : tokens source =
      ts₁ ++ token :: (space.map Token.code ++ .template body :: rest) := by
    rw [hts, List.append_assoc, List.cons_append]
  refine ⟨token, (tokenBefore_ofLiteral hts t).trans hfind, ?_⟩
  simp only [Tagged.IsFromCode, Tagged.ofLiteral, hspan, htokens]
  cases hcode : token.isCode with
  | true =>
    obtain ⟨c, rfl⟩ := Token.exists_code_of_isCode hcode
    refine ⟨⟨fun _ ↦ rfl, fun _ n hn ↦ ?_⟩, by simp⟩
    exact exists_code_tokenAt rfl hclosed hspace _ hn
  | false =>
    obtain ⟨hline, hat⟩ :=
      tokenAt_of_not_isCode rfl (hclosed token (by simp)) hcode (hlast ▸ hword)
    refine ⟨⟨fun hfrom ↦ ?_, by simp⟩, fun _ ↦ ⟨hline, hat _⟩⟩
    -- the first byte of the word belongs to the token
    have hfirst := contains_start_wordSpanAfter (hlast ▸ hword)
    obtain ⟨c, hc⟩ := hfrom _ hfirst
    rw [hat _ _ hfirst, Option.some.injEq] at hc
    rw [hc] at hcode
    cases hcode

/-- A literal behind a string that its line ends has the last word of the string for a tag. The tag
of the literal after it is code. -/
theorem isFromCode_iff_of_open_string : ∃ f g,
    scan {} "'a css\n`b`+css\n`c`".toList = .ok [f, g] ∧
      ¬ f.IsFromCode "'a css\n`b`+css\n`c`".toList ∧
      g.IsFromCode "'a css\n`b`+css\n`c`".toList := by
  have hscan : scan {} "'a css\n`b`+css\n`c`".toList = .ok
      [⟨"css".toList, ⟨3, 6⟩, ⟨8, 9⟩, ⟨['b'], []⟩⟩,
        ⟨"css".toList, ⟨11, 14⟩, ⟨16, 17⟩, ⟨['c'], []⟩⟩] := by
    decide +kernel
  refine ⟨_, _, hscan, ?_, ?_⟩
  · obtain ⟨token, htoken, hcode, -⟩ := isFromCode_iff_of_scan hscan (List.mem_cons_self ..)
    obtain rfl : .string '\'' "a css\n".toList = token :=
      Option.some.inj (Eq.trans (by decide +kernel) htoken)
    rw [hcode]
    decide
  · obtain ⟨token, htoken, hcode, -⟩ := isFromCode_iff_of_scan hscan (List.mem_cons_of_mem _
      (List.mem_singleton_self _))
    obtain rfl : .code 's' = token := Option.some.inj (Eq.trans (by decide +kernel) htoken)
    exact hcode.2 rfl

/-- A literal without a tag of its own is found if the comment in front of it ends with a tag. -/
theorem not_isFromCode_of_comment : ∃ f,
    scan {} "// css\n`.a \x7b\x7d`".toList = .ok [f] ∧
      ¬ f.IsFromCode "// css\n`.a \x7b\x7d`".toList := by
  refine ⟨⟨"css".toList, ⟨3, 6⟩, ⟨8, 13⟩, ⟨".a \x7b\x7d".toList, []⟩⟩, by decide +kernel, ?_⟩
  intro hfrom
  obtain ⟨c, hc⟩ := hfrom 3 rfl
  have htoken : tokenAt 3 (tokens "// css\n`.a \x7b\x7d`".toList) =
      some (.lineComment " css\n".toList) := by
    decide +kernel
  cases htoken.symm.trans hc

end EmbeddedCss.Host
