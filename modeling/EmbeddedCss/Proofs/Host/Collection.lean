import EmbeddedCss.Proofs.Host.Placement

/-! # Collecting tagged literals

The tagged literals of a file are collected token by token. What a literal becomes depends on three
things: the text in front of it, which ends with the word that may be a tag; its body; and the line
that comments have turned off last.

The main statement says what can happen to each token, so that a collection is a derivation with one
rule for each case. -/

namespace EmbeddedCss.Host

/-! ## The word in front of a literal -/

/-- Neither white space nor part of a word. -/
def endsWord (c : Char) : Bool := !Text.isSpace c && !isTagChar c

/-- The word at the end of a text lies behind the last character that is neither white space nor
part of a word. -/
theorem lastWord_append_cons {c : Char} (hc : endsWord c = true) (u v : Text) :
    lastWord (u ++ c :: v) = ((lastWord u).1, (lastWord u).2 ++ c :: v) := by
  have hstop : ∀ {p : Char → Bool}, p c = false → ∀ t : Text,
      (t ++ c :: v).takeWhile p = t.takeWhile p ∧
        (t ++ c :: v).dropWhile p = t.dropWhile p ++ c :: v := by
    intro p hp t
    induction t with
    | nil => simp [hp]
    | cons d t ih => by_cases hd : p d <;> simp [hd, ih]
  simp only [endsWord, Bool.and_eq_true, Bool.not_eq_true'] at hc
  simp only [lastWord, (hstop hc.1 u).2, (hstop hc.2 _).1, (hstop hc.2 _).2]

/-- The word at the end of a text and white space follow what stands in front of the word. -/
theorem exists_append_lastWord (seen : Text) : ∃ space : Text, space.all Text.isSpace = true ∧
    seen = space ++ ((lastWord seen).1.reverse ++ (lastWord seen).2) := by
  refine ⟨seen.takeWhile Text.isSpace, ?_, ?_⟩
  · rw [List.all_takeWhile]
  · simp only [lastWord, List.reverse_reverse, List.takeWhile_append_dropWhile]

/-- The tag of a literal that follows `seen`. -/
def tagAfter (seen : Text) : Text := trimDots (lastWord seen).1

/-- The span of the word in front of a literal that follows `seen`. -/
def wordSpanAfter (seen : Text) : Span :=
  ⟨Text.size (lastWord seen).2, Text.size (lastWord seen).2 + Text.size (lastWord seen).1⟩

/-- Whether a literal that follows `seen` has a tag that counts. -/
def counts (o : Options) (seen : Text) : Bool :=
  !(tagAfter seen).isEmpty && o.selects (tagAfter seen)

/-- The line on which the tag of a literal that follows `seen` starts. -/
def tagLine (seen : Text) : Nat := lineAfter (lastWord seen).2

/-- The literal that follows `seen`, with its body and the template of that. -/
def Tagged.ofLiteral (seen body : Text) (t : Template) : Tagged where
  tag := tagAfter seen
  wordSpan := wordSpanAfter seen
  content := ⟨Text.size seen + 1, Text.size seen + 1 + Text.size body⟩
  template := t

/-! ## One rule for each token -/

/-- The line that is turned off after a token. -/
def remembered (o : Options) (seen : Text) (off : Option Nat) (token : Token) : Option Nat :=
  (if o.disableComments then token.disabledLine seen else none).or off

@[simp] theorem remembered_template (o : Options) (seen : Text) (off : Option Nat) (body : Text) :
    remembered o seen off (.template body) = off := by
  simp [remembered, Token.disabledLine]

theorem remembered_of_not {o : Options} (ho : o.disableComments = false) (seen : Text)
    (off : Option Nat) (token : Token) : remembered o seen off token = off := by
  simp [remembered, ho]

/-- The literals that are collected from some tokens. -/
inductive Collects (o : Options) : Text → Option Nat → List Token → List Tagged → Prop
  | nil {seen : Text} {off : Option Nat} : Collects o seen off [] []
  /-- A token that is no literal may turn a line off. -/
  | other {seen : Text} {off : Option Nat} {token : Token} {rest : List Token}
      {found : List Tagged} :
      (∀ body, token ≠ .template body) → (∀ tail, token ≠ .unclosed tail) →
      Collects o (token.text.reverse ++ seen) (remembered o seen off token) rest found →
      Collects o seen off (token :: rest) found
  /-- A literal is passed over if its tag does not count or the line of its tag is turned off. -/
  | pass {seen : Text} {off : Option Nat} {body : Text} {rest : List Token}
      {found : List Tagged} :
      ¬ (counts o seen = true ∧ off ≠ some (tagLine seen)) →
      Collects o ((Token.template body).text.reverse ++ seen) off rest found →
      Collects o seen off (.template body :: rest) found
  | take {seen : Text} {off : Option Nat} {body : Text} {t : Template} {rest : List Token}
      {found : List Tagged} :
      counts o seen = true → off ≠ some (tagLine seen) → Template.ofText body = .ok t →
      Collects o ((Token.template body).text.reverse ++ seen) off rest found →
      Collects o seen off (.template body :: rest) (.ofLiteral seen body t :: found)

/-- A literal is put in front of what is collected behind it, if it is not passed over. -/
theorem collect_template (o : Options) (seen : Text) (off : Option Nat) (body : Text)
    (rest : List Token) :
    collect o seen off (.template body :: rest) =
      (collect o ((Token.template body).text.reverse ++ seen) off rest >>= fun later ↦
        if counts o seen = true ∧ off ≠ some (tagLine seen) then
          Template.ofText body >>= fun t ↦ .ok (.ofLiteral seen body t :: later)
        else .ok later) := by
  rw [collect]
  congr 1
  funext later
  have hpass : ((tagAfter seen).isEmpty || !o.selects (tagAfter seen) ||
      off == some (tagLine seen)) = true ↔
        ¬ (counts o seen = true ∧ off ≠ some (tagLine seen)) := by
    simp [counts, Classical.or_iff_not_imp_left]
  by_cases hcounts : counts o seen = true ∧ off ≠ some (tagLine seen)
  · rw [if_pos hcounts]
    exact if_neg fun h ↦ hpass.1 h hcounts
  · rw [if_neg hcounts]
    exact if_pos (hpass.2 hcounts)

theorem collect_other {o : Options} {seen : Text} {off : Option Nat} {token : Token}
    (rest : List Token) (hliteral : ∀ body, token ≠ .template body)
    (hunclosed : ∀ tail, token ≠ .unclosed tail) :
    collect o seen off (token :: rest) =
      collect o (token.text.reverse ++ seen) (remembered o seen off token) rest := by
  rw [collect]
  · rfl
  · exact fun tail ↦ hunclosed tail
  · exact fun body ↦ hliteral body

/-- Collecting gives what the rules for the tokens give. -/
theorem collect_eq_ok_iff {o : Options} {seen : Text} {off : Option Nat} {ts : List Token}
    {found : List Tagged} : collect o seen off ts = .ok found ↔ Collects o seen off ts found := by
  constructor
  · intro h
    induction ts generalizing seen off found with
    | nil =>
      obtain rfl : [] = found := Except.ok.inj h
      exact .nil
    | cons token rest ih =>
      cases token with
      | template body =>
        rw [collect_template] at h
        obtain ⟨later, hlater, h⟩ := exists_of_bind_eq_ok h
        split at h
        · rename_i hcounts
          obtain ⟨t, ht, h⟩ := exists_of_bind_eq_ok h
          obtain rfl := Except.ok.inj h
          exact .take hcounts.1 hcounts.2 ht (ih hlater)
        · rename_i hpass
          obtain rfl := Except.ok.inj h
          exact .pass hpass (ih hlater)
      | unclosed tail => cases h
      | code | string | lineComment | blockComment =>
        rw [collect_other rest (by simp) (by simp)] at h
        exact .other (by simp) (by simp) (ih h)
  · intro h
    induction h with
    | nil => rfl
    | other hliteral hunclosed _ ih => rw [collect_other _ hliteral hunclosed, ih]
    | pass hpass _ ih =>
      rw [collect_template, ih]
      exact if_neg hpass
    | take hcounts hoff ht _ ih =>
      rw [collect_template, ih]
      refine (if_pos ⟨hcounts, hoff⟩).trans ?_
      rw [ht]
      rfl

/-- A literal that is collected follows some of the tokens. -/
theorem Collects.exists_literal {o : Options} {seen : Text} {off : Option Nat} {ts : List Token}
    {found : List Tagged} (h : Collects o seen off ts found) {f : Tagged} (hf : f ∈ found) :
    ∃ ts₁ body ts₂ t, ts = ts₁ ++ .template body :: ts₂ ∧ Template.ofText body = .ok t ∧
      counts o ((ts₁.flatMap Token.text).reverse ++ seen) = true ∧
      f = .ofLiteral ((ts₁.flatMap Token.text).reverse ++ seen) body t := by
  -- a token in front only lengthens what was seen
  have behind : ∀ {token : Token} {rest : List Token} {seen : Text},
      (∃ ts₁ body ts₂ t, rest = ts₁ ++ .template body :: ts₂ ∧ Template.ofText body = .ok t ∧
        counts o ((ts₁.flatMap Token.text).reverse ++ (token.text.reverse ++ seen)) = true ∧
        f = .ofLiteral ((ts₁.flatMap Token.text).reverse ++ (token.text.reverse ++ seen)) body t) →
      ∃ ts₁ body ts₂ t, token :: rest = ts₁ ++ .template body :: ts₂ ∧
        Template.ofText body = .ok t ∧
        counts o ((ts₁.flatMap Token.text).reverse ++ seen) = true ∧
        f = .ofLiteral ((ts₁.flatMap Token.text).reverse ++ seen) body t := by
    rintro token rest seen ⟨ts₁, body, ts₂, t, rfl, ht, hcounts, hf⟩
    refine ⟨token :: ts₁, body, ts₂, t, rfl, ht, ?_, ?_⟩
    · simpa using hcounts
    · simpa using hf
  induction h with
  | nil => simp at hf
  | other _ _ _ ih => exact behind (ih hf)
  | pass _ _ ih => exact behind (ih hf)
  | @take seen off body t rest found hcounts _ ht _ ih =>
    rcases List.mem_cons.1 hf with rfl | hf
    · exact ⟨[], body, rest, t, rfl, ht, hcounts, rfl⟩
    · exact behind (ih hf)

/-- The rules give what is found in a file, unless a comment turns it off. -/
theorem scan_eq_ok_iff {o : Options} {source : Text} {found : List Tagged} :
    scan o source = .ok found ↔
      (o.disableComments = true ∧ (∃ t ∈ tokens source, t.disablesFile = true) ∧ found = []) ∨
      (¬ (o.disableComments = true ∧ ∃ t ∈ tokens source, t.disablesFile = true) ∧
        Collects o [] none (tokens source) found) := by
  rw [scan, ← collect_eq_ok_iff]
  by_cases hoff : (o.disableComments && (tokens source).any Token.disablesFile) = true
  · rw [if_pos hoff, Except.ok.injEq]
    rw [Bool.and_eq_true, List.any_eq_true] at hoff
    simp only [hoff.1, hoff.2, true_and, not_true_eq_false, false_and, or_false]
    exact eq_comm
  · rw [if_neg hoff]
    rw [Bool.and_eq_true, List.any_eq_true] at hoff
    rw [← and_assoc]
    simp only [hoff, false_and, false_or, not_false_eq_true, true_and]

/-- Where comments turn nothing off, the rules give what is found in a file. -/
theorem scan_eq_ok_iff_of_not {o : Options} (ho : o.disableComments = false) {source : Text}
    {found : List Tagged} :
    scan o source = .ok found ↔ Collects o [] none (tokens source) found := by
  rw [scan_eq_ok_iff, ho]
  simp

end EmbeddedCss.Host
