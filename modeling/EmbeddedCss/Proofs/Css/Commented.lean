import EmbeddedCss.Proofs.Css.Recognition
import EmbeddedCss.Proofs.Css.Words

/-! # Lexemes of texts that differ inside a comment

Two texts that are the same but for a part inside of a comment are read in lockstep: a lexeme is
taken from both or from neither, and what is left of the two is again the same but for that part. A
quote in front of the comment could hide where the comment starts. It starts a string where there is
a quote that closes it and stands for itself where there is none, but in the name of a property it
always stands for itself. The texts are taken such that the part lies in a comment on every way that
the grammar may take through them. -/

namespace EmbeddedCss

/-! ## Reading in lockstep -/

namespace Scanner

/-- A scanner refuses two texts, or it reads off both, and what is left of them is related. -/
inductive InStep (R : Text → Text → Prop) (a : Scanner) (s s' : Text) : Prop
  | refused : a s = none → a s' = none → InStep R a s s'
  | read {l r l' r' : Text} : a s = some (l, r) → a s' = some (l', r') → R r r' → InStep R a s s'

/-- A scanner reads related texts in lockstep, and what it leaves of them is related. -/
def Lockstep (R R' : Text → Text → Prop) (a : Scanner) : Prop :=
  ∀ ⦃s s' : Text⦄, R s s' → InStep R' a s s'

/-- A test gives the same answer for related texts. -/
def SameTest (R : Text → Text → Prop) (test : Text → Bool) : Prop :=
  ∀ ⦃s s' : Text⦄, R s s' → test s = test s'

variable {R R' R'' : Text → Text → Prop} {a a' : Scanner}

/-- A scanner that goes on as another one, with something in front of its lexeme. -/
theorem InStep.of_map {s s' r r' : Text} {f f' : Text → Text} (h : InStep R a r r')
    (hs : a' s = (a r).map fun p ↦ (f p.1, p.2)) (hs' : a' s' = (a r').map fun p ↦ (f' p.1, p.2)) :
    InStep R a' s s' := by
  cases h with
  | refused h h' =>
    rw [h, Option.map_none] at hs
    rw [h', Option.map_none] at hs'
    exact .refused hs hs'
  | read h h' hr =>
    rw [h, Option.map_some] at hs
    rw [h', Option.map_some] at hs'
    exact .read hs hs' hr

theorem Lockstep.mono (ha : a.Lockstep R R') (h : ∀ {s s'}, R' s s' → R'' s s') :
    a.Lockstep R R'' := by
  intro s s' hs
  cases ha hs with
  | refused h₁ h₁' => exact .refused h₁ h₁'
  | read h₁ h₁' hr => exact .read h₁ h₁' (h hr)

theorem Lockstep.seq (ha : a.Lockstep R R') (ha' : a'.Lockstep R' R'') :
    (Scanner.seq a a').Lockstep R R'' := by
  intro s s' h
  cases ha h with
  | refused h₁ h₁' => exact .refused (by simp [Scanner.seq, h₁]) (by simp [Scanner.seq, h₁'])
  | read h₁ h₁' hr =>
    cases ha' hr with
    | refused h₂ h₂' =>
      exact .refused (by simp [Scanner.seq, h₁, h₂]) (by simp [Scanner.seq, h₁', h₂'])
    | read h₂ h₂' hr =>
      exact .read (seq_eq_some_iff.2 ⟨_, _, _, h₁, h₂, rfl⟩)
        (seq_eq_some_iff.2 ⟨_, _, _, h₁', h₂', rfl⟩) hr

theorem orElse_of_some {s : Text} {p : Text × Text} (h : a s = some p) :
    orElse a a' s = some p := by
  simp only [orElse, h]

theorem orElse_of_none {s : Text} (h : a s = none) : orElse a a' s = a' s := by
  simp only [orElse, h]

theorem Lockstep.orElse (ha : a.Lockstep R R') (ha' : a'.Lockstep R R') :
    (Scanner.orElse a a').Lockstep R R' := by
  intro s s' h
  cases ha h with
  | read h₁ h₁' hr => exact .read (orElse_of_some h₁) (orElse_of_some h₁') hr
  | refused h₁ h₁' =>
    cases ha' h with
    | refused h₂ h₂' =>
      exact .refused ((orElse_of_none h₁).trans h₂) ((orElse_of_none h₁').trans h₂')
    | read h₂ h₂' hr =>
      exact .read ((orElse_of_none h₁).trans h₂) ((orElse_of_none h₁').trans h₂') hr

theorem followedBy_of_some (test : Text → Bool) {s l r : Text} (h : a s = some (l, r)) :
    followedBy a test s = if test r then some (l, r) else none := by
  simp only [followedBy, h]

theorem Lockstep.followedBy {test : Text → Bool} (ha : a.Lockstep R R') (ht : SameTest R' test) :
    (Scanner.followedBy a test).Lockstep R R' := by
  intro s s' h
  cases ha h with
  | refused h₁ h₁' =>
    exact .refused (by simp [Scanner.followedBy, h₁]) (by simp [Scanner.followedBy, h₁'])
  | @read l r l' r' h₁ h₁' hr =>
    have h₂ := followedBy_of_some test h₁
    have h₂' := followedBy_of_some test h₁'
    rw [← ht hr] at h₂'
    split at h₂
    · exact .read h₂ (h₂'.trans (if_pos ‹_›)) hr
    · exact .refused h₂ (h₂'.trans (if_neg ‹_›))

/-- What repetitions leave is related. -/
theorem Lockstep.many (ha : a.Lockstep R R) (hproductive : a.Productive) {s s' : Text}
    (h : R s s') : R (many a s).2 (many a s').2 := by
  induction hn : s.length using Nat.strong_induction_on generalizing s s' with
  | _ n ih =>
    subst hn
    cases ha h with
    | refused h₁ h₁' => rwa [many_of_none h₁, many_of_none h₁']
    | read h₁ h₁' hr =>
      rw [hproductive.many_of_some h₁, hproductive.many_of_some h₁']
      exact ih _ (hproductive.length_lt h₁) hr rfl

theorem Lockstep.star (ha : a.Lockstep R R) (hproductive : a.Productive) :
    (Scanner.star a).Lockstep R R := fun _ _ h ↦ .read rfl rfl (ha.many hproductive h)

theorem Lockstep.many1 (ha : a.Lockstep R R) (hproductive : a.Productive) :
    (Scanner.many1 a).Lockstep R R := ha.seq (ha.star hproductive)

end Scanner

namespace Css.Lexeme

open Scanner
open Marker (isLabelChar isMarkerChar)
open Text (isSpace)

/-! ## Texts that end in a comment -/

/-- What may be read at a place of a text. -/
inductive Place where
  /-- An item may start here. -/
  | start
  /-- The name of a property may go on here. -/
  | name
  /-- A selector, a value or a group may go on here. -/
  | rest
deriving DecidableEq

/-- What may be read behind a character. A group that is not closed ends what is in front of it, so
that its opening character may be the first of a name. -/
def Place.after (p : Place) (c : Char) : Place :=
  if c ∈ [';', '{', '}'] then .start
  else if c ∈ ['(', '['] then .name
  else if c = ':' then .rest
  else if isSpace c then if p = .start then .start else .rest
  else if p = .rest then .rest else .name

/-- A text ends inside of a comment on every way that the grammar may take through it. -/
inductive EndsInComment : Place → Text → Prop
  /-- A comment is not closed. -/
  | unclosed {p : Place} {t : Text} : commentTail t = none → EndsInComment p ('/' :: '*' :: t)
  /-- A comment is closed, and what follows it ends inside of another one. -/
  | closed {p : Place} {t l r : Text} : commentTail t = some (l, r) → EndsInComment p r →
      EndsInComment p ('/' :: '*' :: t)
  /-- A character that starts neither a comment nor a string. -/
  | char {p : Place} {c : Char} {t : Text} : c ∉ ['"', '\''] → opensComment (c :: t) = false →
      EndsInComment (p.after c) t → EndsInComment p (c :: t)
  /-- A quote that is not closed stands for itself. It may be the first character of a name. -/
  | quote {p : Place} {c : Char} {t : Text} : c ∈ ['"', '\''] → stringTail c t = none →
      EndsInComment .name t → EndsInComment p (c :: t)
  /-- A quote that is closed starts a string, or it is part of a name. -/
  | string {p : Place} {c : Char} {t l r : Text} : c ∈ ['"', '\''] → stringTail c t = some (l, r) →
      EndsInComment .rest r → (p ≠ .rest → EndsInComment .name t) → EndsInComment p (c :: t)

section EndsInComment

variable {p : Place} {t : Text}

/-- A place where no name goes on asks for the least. -/
theorem EndsInComment.rest (h : EndsInComment p t) : EndsInComment .rest t := by
  induction h with
  | unclosed h => exact .unclosed h
  | closed h _ ih => exact .closed h ih
  | @char p c t hquote hopen ht ih =>
    refine .char hquote hopen ?_
    unfold Place.after at ht ⊢
    grind
  | quote hquote hnone ht _ => exact .quote hquote hnone ht
  | string hquote hsome hr _ _ _ => exact .string hquote hsome hr (absurd rfl)

/-- The start of an item asks for more than the inside of a name. -/
theorem EndsInComment.name (h : EndsInComment .start t) : EndsInComment .name t := by
  generalize hp : Place.start = p at h
  induction h with
  | unclosed h => exact .unclosed h
  | closed h _ ih => exact .closed h (ih hp)
  | @char p c t hquote hopen ht ih =>
    refine .char hquote hopen ?_
    have hrest := ht.rest
    subst hp
    unfold Place.after at ht ⊢
    grind
  | quote hquote hnone ht _ => exact .quote hquote hnone ht
  | string hquote hsome hr ht _ _ => exact .string hquote hsome hr fun _ ↦ ht (by simp [← hp])

theorem EndsInComment.two_le_length (h : EndsInComment p t) : 2 ≤ t.length := by
  induction h with
  | unclosed => simp
  | closed => simp
  | char _ _ _ ih => exact Nat.le_succ_of_le ih
  | quote _ _ _ ih => exact Nat.le_succ_of_le ih
  | string _ hsome _ _ ih _ =>
    have hle := List.IsSuffix.length_le ⟨_, exact_stringTail _ hsome⟩
    exact Nat.le_succ_of_le (ih.trans hle)

theorem exists_of_opensComment (h : opensComment t = true) : ∃ u, t = '/' :: '*' :: u := by
  unfold opensComment at h
  split at h
  · exact ⟨_, rfl⟩
  · cases h

/-- A text that ends inside of a comment starts with a comment, or with a character that does not
start one, whatever follows the text. -/
theorem EndsInComment.cases (h : EndsInComment p t) :
    (∃ u, t = '/' :: '*' :: u) ∨ ∃ c u, t = c :: u ∧ ∀ s, opensComment (c :: (u ++ s)) = false := by
  have hlength := h.two_le_length
  match t with
  | [] | [_] => simp at hlength
  | c :: d :: u =>
    cases hopen : opensComment (c :: d :: u) with
    | true => exact .inl (exists_of_opensComment hopen)
    | false =>
      refine .inr ⟨c, d :: u, rfl, fun s ↦ ?_⟩
      rw [← hopen, List.cons_append]
      unfold opensComment
      split <;> simp_all

/-- A character is read off such a text, unless it is a quote that starts a string. -/
theorem EndsInComment.tail {c : Char} (h : EndsInComment p (c :: t))
    (hopen : opensComment (c :: t) = false)
    (hstring : c ∈ ['"', '\''] → stringTail c t = none ∨ p ≠ .rest) :
    EndsInComment (p.after c) t := by
  have key (hquote : c ∈ ['"', '\'']) (ht : EndsInComment .name t) :
      EndsInComment (p.after c) t := by
    have hc : c = '"' ∨ c = '\'' := by simpa using hquote
    have hafter : p.after c = .rest ∨ p.after c = .name := by
      rcases hc with rfl | rfl <;> cases p <;> decide
    rcases hafter with h | h <;> rw [h]
    · exact ht.rest
    · exact ht
  cases h with
  | unclosed => cases hopen
  | closed => cases hopen
  | char _ _ ht => exact ht
  | quote hquote _ ht => exact key hquote ht
  | string hquote hsome _ ht =>
    rcases hstring hquote with hnone | hp
    · cases hnone.symm.trans hsome
    · exact key hquote (ht hp)

end EndsInComment

/-! ## Comments and strings behind a text -/

/-- A part made of characters of bare markers. They open and close neither comments nor strings. -/
def Neutral (w : Text) : Prop := w ≠ [] ∧ ∀ c ∈ w, isLabelChar c = true ∨ c = ':'

variable {w : Text}

theorem Neutral.isMarkerChar (hw : Neutral w) {c : Char} (hc : c ∈ w) : isMarkerChar c = true := by
  rcases hw.2 c hc with h | rfl
  · simp [Marker.isMarkerChar, h]
  · rfl

theorem Neutral.ne (hw : Neutral w) {c d : Char} (hc : c ∈ w) (hd : isLabelChar d = false)
    (hcolon : d ≠ ':') : c ≠ d := by
  rintro rfl
  rcases hw.2 c hc with h | h
  · rw [h] at hd
    cases hd
  · exact hcolon h

theorem commentTail_append_of_some {t l r : Text} (h : commentTail t = some (l, r)) (s : Text) :
    commentTail (t ++ s) = some (l, r ++ s) := by
  fun_induction commentTail t generalizing l r with
  | case1 => cases h
  | case2 t =>
    obtain ⟨rfl, rfl⟩ := Prod.mk.inj (Option.some.inj h)
    rfl
  | case3 c t hne ih =>
    obtain ⟨⟨l, r⟩, ht, he⟩ := Option.map_eq_some_iff.1 h
    obtain ⟨rfl, rfl⟩ := Prod.mk.inj he
    rw [List.cons_append, commentTail_cons, ih ht, Option.map_some]
    rintro u rfl hu
    cases t with
    | nil => cases ht
    | cons d t =>
      obtain ⟨rfl, -⟩ := List.cons.inj hu
      exact hne t rfl rfl

/-- A comment that is not closed goes on behind a part that does not close it. -/
theorem commentTail_append_of_none {t : Text} (h : commentTail t = none) (hw : Neutral w)
    (b : Text) :
    commentTail (t ++ (w ++ b)) = (commentTail b).map fun p ↦ (t ++ (w ++ p.1), p.2) := by
  fun_induction commentTail t with
  | case1 =>
    exact commentTail_append_of_notMem (fun h ↦ hw.ne h (by decide) (by decide) rfl) b
  | case2 t => cases h
  | case3 c t hne ih =>
    rw [List.cons_append, commentTail_cons, ih (Option.map_eq_none_iff.1 h), Option.map_map]
    · rfl
    · rintro u rfl hu
      cases t with
      | nil =>
        obtain ⟨d, w, rfl⟩ := List.exists_cons_of_ne_nil hw.1
        obtain ⟨hd, -⟩ := List.cons.inj hu
        exact hw.ne (List.mem_cons_self ..) (by decide) (by decide) hd
      | cons d t =>
        obtain ⟨rfl, -⟩ := List.cons.inj hu
        exact hne t rfl rfl

/-- In a string, a character that neither closes it nor hides the next one is passed over. -/
theorem stringTail_cons {quote c : Char} (hslash : c ≠ '\\') (hquote : c ≠ quote)
    (hline : c ≠ '\n') (t : Text) :
    stringTail quote (c :: t) = (stringTail quote t).map fun p ↦ (c :: p.1, p.2) := by
  rw [stringTail, if_neg hquote, if_neg hline]
  rintro d u rfl
  exact absurd rfl hslash

theorem stringTail_append_of_some {quote : Char} (hslash : quote ≠ '\\') {t l r : Text}
    (h : stringTail quote t = some (l, r)) (s : Text) :
    stringTail quote (t ++ s) = some (l, r ++ s) := by
  fun_induction stringTail quote t generalizing l r with
  | case1 => cases h
  | case2 c t ih =>
    obtain ⟨⟨l, r⟩, ht, he⟩ := Option.map_eq_some_iff.1 h
    obtain ⟨rfl, rfl⟩ := Prod.mk.inj he
    rw [List.cons_append, List.cons_append, stringTail, ih ht, Option.map_some]
  | case3 t hne =>
    obtain ⟨rfl, rfl⟩ := Prod.mk.inj (Option.some.inj h)
    rw [List.cons_append, stringTail, if_pos rfl]
    rintro d u rfl
    exact absurd rfl hslash
  | case4 => cases h
  | case5 c t hne hquote hline ih =>
    obtain ⟨⟨l, r⟩, ht, he⟩ := Option.map_eq_some_iff.1 h
    obtain ⟨rfl, rfl⟩ := Prod.mk.inj he
    have hc : c ≠ '\\' := by
      rintro rfl
      cases t with
      | nil => cases ht
      | cons d t => exact hne d t rfl rfl
    rw [List.cons_append, stringTail_cons hc hquote hline, ih ht, Option.map_some]

/-- How a string that is not closed in the text `t` goes on behind it does not depend on what
follows: it is left open by a line end, or it goes on behind any part that does not close it. -/
theorem stringTail_append_of_none {quote : Char} (hmarker : isMarkerChar quote = false) {t : Text}
    (h : stringTail quote t = none) :
    (∀ w b, Neutral w → stringTail quote (t ++ (w ++ b)) = none) ∨
    ∀ w b, Neutral w → stringTail quote (t ++ (w ++ b)) =
      (stringTail quote b).map fun p ↦ (t ++ (w ++ p.1), p.2) := by
  fun_induction stringTail quote t with
  | case1 => exact .inr fun w b hw ↦ stringTail_append hmarker (fun _ ↦ hw.isMarkerChar) b
  | case2 c t ih =>
    rcases ih (Option.map_eq_none_iff.1 h) with ih | ih
    · refine .inl fun w b hw ↦ ?_
      rw [List.cons_append, List.cons_append, stringTail, ih w b hw, Option.map_none]
    · refine .inr fun w b hw ↦ ?_
      rw [List.cons_append, List.cons_append, stringTail, ih w b hw, Option.map_map]
      rfl
  | case3 => cases h
  | case4 t hne hquote =>
    refine .inl fun w b hw ↦ ?_
    rw [List.cons_append, stringTail, if_neg hquote, if_pos rfl]
    exact fun _ _ h ↦ absurd h (by decide)
  | case5 c t hne hquote hline ih =>
    by_cases hslash : c = '\\'
    · -- the backslash is the last character of the text, and hides the first of the part
      subst hslash
      obtain rfl : t = [] := by
        cases t with
        | nil => rfl
        | cons d t => exact (hne d t rfl rfl).elim
      refine .inr fun w b hw ↦ ?_
      obtain ⟨d, w, rfl⟩ := List.exists_cons_of_ne_nil hw.1
      change stringTail quote ('\\' :: d :: (w ++ b)) = _
      have hd : ∀ c ∈ w, isMarkerChar c = true := fun _ hc ↦
        hw.isMarkerChar (List.mem_cons_of_mem d hc)
      rw [stringTail, stringTail_append hmarker hd, Option.map_map]
      rfl
    · rcases ih (Option.map_eq_none_iff.1 h) with ih | ih
      · refine .inl fun w b hw ↦ ?_
        rw [List.cons_append, stringTail_cons hslash hquote hline, ih w b hw, Option.map_none]
      · refine .inr fun w b hw ↦ ?_
        rw [List.cons_append, stringTail_cons hslash hquote hline, ih w b hw, Option.map_map]
        rfl

/-! ## Alike texts -/

/-- Two texts are alike if they are the same but for a part inside of a comment, which is `w` in the
one and `w'` in the other and has `b` behind it, or if both are the same end of `b`. -/
inductive Alike (w w' b : Text) (p : Place) : Text → Text → Prop
  | before {t : Text} : EndsInComment p t → Alike w w' b p (t ++ (w ++ b)) (t ++ (w' ++ b))
  | behind {s : Text} : s <:+ b → Alike w w' b p s s

section Alike

variable {w' b : Text} {p q : Place} {a : Scanner} {s s' : Text}

theorem Alike.rest (h : Alike w w' b p s s') : Alike w w' b .rest s s' := by
  cases h with
  | before ht => exact .before ht.rest
  | behind hs => exact .behind hs

theorem Alike.name (h : Alike w w' b .start s s') : Alike w w' b .name s s' := by
  cases h with
  | before ht => exact .before ht.name
  | behind hs => exact .behind hs

theorem Alike.head?_eq (h : Alike w w' b p s s') : s.head? = s'.head? := by
  cases h with
  | @before t ht =>
    have hlength := ht.two_le_length
    cases t with
    | nil => simp at hlength
    | cons c u => rfl
  | behind => rfl

/-- Where the texts are the same, what an exact scanner leaves is the same. -/
theorem lockstep_of_before (ha : a.Exact)
    (h : ∀ t, EndsInComment p t → InStep (Alike w w' b q) a (t ++ (w ++ b)) (t ++ (w' ++ b))) :
    a.Lockstep (Alike w w' b p) (Alike w w' b q) := by
  intro s s' hs
  cases hs with
  | before ht => exact h _ ht
  | behind hs =>
    cases hread : a s with
    | none => exact .refused hread hread
    | some x =>
      obtain ⟨l, r⟩ := x
      exact .read hread hread (.behind (.trans ⟨l, ha hread⟩ hs))

/-! ## Characters -/

/-- Characters of a class lead from one kind of place to another. -/
def Leads (p q : Place) (test : Char → Bool) : Prop :=
  ∀ ⦃c : Char⦄ ⦃t : Text⦄, test c = true → EndsInComment p (c :: t) →
    opensComment (c :: t) = false → EndsInComment q t

theorem leads {test : Char → Bool}
    (hquote : p = .rest → ['"', '\''].any test = false)
    (hafter : ∀ c, test c = true → q = .rest ∨ p.after c = q) : Leads p q test := by
  intro c t hc ht hopen
  have htail := ht.tail hopen fun hq ↦ .inr fun hp ↦ List.any_eq_false.1 (hquote hp) c hq hc
  rcases hafter c hc with rfl | rfl
  · exact htail.rest
  · exact htail

theorem EndsInComment.dropWhile {test : Char → Bool} (hslash : test '/' = false)
    (hleads : Leads p p test) {t : Text} (h : EndsInComment p t) :
    EndsInComment p (t.dropWhile test) ∧
      ∀ s, (t ++ s).dropWhile test = t.dropWhile test ++ s := by
  induction t with
  | nil =>
    have hlength := h.two_le_length
    simp at hlength
  | cons c t ih =>
    cases hc : test c with
    | false => simpa [hc] using h
    | true =>
      have hne : c ≠ '/' := by
        rintro rfl
        cases hslash.symm.trans hc
      simpa [hc] using ih (hleads hc h (opensComment_eq_false hne t))

theorem Alike.dropWhile {test : Char → Bool} (hslash : test '/' = false) (hleads : Leads p p test)
    (h : Alike w w' b p s s') : Alike w w' b p (s.dropWhile test) (s'.dropWhile test) := by
  cases h with
  | before ht =>
    obtain ⟨hdrop, heq⟩ := ht.dropWhile hslash hleads
    rw [heq, heq]
    exact .before hdrop
  | behind hs => exact .behind ((List.dropWhile_suffix test).trans hs)

theorem leads_isSpace : Leads .rest .rest isSpace := leads (by decide) fun _ _ ↦ .inl rfl

theorem Alike.dropSpaces (h : Alike w w' b .rest s s') :
    Alike w w' b .rest (s.dropWhile isSpace) (s'.dropWhile isSpace) :=
  h.dropWhile (by decide) leads_isSpace

/-- The same character in front of texts is read off both or off neither. -/
theorem inStep_char (test : Char → Bool) (c : Char) (h : test c = true → Alike w w' b q s s') :
    InStep (Alike w w' b q) (Scanner.char test) (c :: s) (c :: s') := by
  cases hc : test c with
  | false => exact .refused (by simp [Scanner.char, hc]) (by simp [Scanner.char, hc])
  | true => exact .read (if_pos hc) (if_pos hc) (h hc)

theorem lockstep_unlessComment {test : Char → Bool} (hleads : Leads p q test) :
    Lockstep (Alike w w' b p) (Alike w w' b q)
      fun s ↦ if opensComment s then none else Scanner.char test s := by
  refine lockstep_of_before (productive_unlessComment test).1 fun t ht ↦ ?_
  rcases ht.cases with ⟨u, rfl⟩ | ⟨c, u, rfl, hopen⟩
  · exact .refused rfl rfl
  · have hopen' := hopen []
    rw [List.append_nil] at hopen'
    have hchar : InStep (Alike w w' b q) (Scanner.char test) (c :: (u ++ (w ++ b)))
        (c :: (u ++ (w' ++ b))) := inStep_char test c fun hc ↦ .before (hleads hc ht hopen')
    cases hchar with
    | refused h h' =>
      exact .refused ((if_neg (Bool.eq_false_iff.1 (hopen _))).trans h)
        ((if_neg (Bool.eq_false_iff.1 (hopen _))).trans h')
    | read h h' hr =>
      exact .read ((if_neg (Bool.eq_false_iff.1 (hopen _))).trans h)
        ((if_neg (Bool.eq_false_iff.1 (hopen _))).trans h') hr

theorem lockstep_char {test : Char → Bool} (hslash : test '/' = false) (hleads : Leads p q test) :
    (Scanner.char test).Lockstep (Alike w w' b p) (Alike w w' b q) := by
  refine lockstep_of_before (exact_char test) fun t ht ↦ ?_
  rcases ht.cases with ⟨u, rfl⟩ | ⟨c, u, rfl, hopen⟩
  · exact .refused (by simp [Scanner.char, hslash]) (by simp [Scanner.char, hslash])
  · have hopen' := hopen []
    rw [List.append_nil] at hopen'
    exact inStep_char test c fun hc ↦ .before (hleads hc ht hopen')

/-! ## Comments, strings and groups -/

variable (hw : Neutral w) (hw' : Neutral w') (hb : (commentTail b).isSome = true)

include hw hw'

theorem lockstep_string : string.Lockstep (Alike w w' b .rest) (Alike w w' b .rest) := by
  refine lockstep_of_before productive_string.1 fun t ht ↦ ?_
  have hstring {c : Char} (hc : c ∈ ['"', '\'']) (t : Text) : string (c :: t) =
      (stringTail c t).map fun x ↦ (c :: x.1, x.2) := if_pos (by simpa using hc)
  cases ht with
  | unclosed => exact .refused rfl rfl
  | closed => exact .refused rfl rfl
  | @char _ c t hc =>
    have hc' : ¬ (c = '"' ∨ c = '\'') := by simpa using hc
    exact .refused (if_neg hc') (if_neg hc')
  | @string _ c t l r hc hread hr =>
    have hslash : c ≠ '\\' := by
      rintro rfl
      simp at hc
    have happend (s : Text) : string (c :: t ++ s) = some (c :: l, r ++ s) := by
      rw [List.cons_append, hstring hc, stringTail_append_of_some hslash hread, Option.map_some]
    exact .read (happend _) (happend _) (.before hr)
  | @quote _ c t hc hread =>
    have hc' : c = '"' ∨ c = '\'' := by simpa using hc
    have hmarker : isMarkerChar c = false := by rcases hc' with rfl | rfl <;> rfl
    rw [List.cons_append, List.cons_append]
    rcases stringTail_append_of_none hmarker hread with hopen | hopen
    · exact .refused (by rw [hstring hc, hopen w b hw, Option.map_none])
        (by rw [hstring hc, hopen w' b hw', Option.map_none])
    · -- the string runs over the part, and is closed behind it or not at all
      cases hrest : stringTail c b with
      | none =>
        exact .refused (by rw [hstring hc, hopen w b hw, hrest, Option.map_none, Option.map_none])
          (by rw [hstring hc, hopen w' b hw', hrest, Option.map_none, Option.map_none])
      | some x =>
        obtain ⟨l, r⟩ := x
        have hread {v : Text} (hv : Neutral v) : string (c :: (t ++ (v ++ b))) =
            some (c :: (t ++ (v ++ l)), r) := by
          rw [hstring hc, hopen v b hv, hrest, Option.map_some, Option.map_some]
        exact .read (hread hw) (hread hw') (.behind ⟨l, exact_stringTail c hrest⟩)

include hb

/-- A comment in front of the part is the same in both texts; that with the part in it is closed in
`b`. -/
theorem exists_comment {t : Text} (h : EndsInComment p ('/' :: '*' :: t)) : ∃ l r l' r',
    comment ('/' :: '*' :: t ++ (w ++ b)) = some (l, r) ∧
      comment ('/' :: '*' :: t ++ (w' ++ b)) = some (l', r') ∧ Alike w w' b p r r' := by
  cases h with
  | unclosed h =>
    obtain ⟨⟨l, r⟩, hlr⟩ := Option.isSome_iff_exists.1 hb
    have hread {v : Text} (hv : Neutral v) : comment ('/' :: '*' :: t ++ (v ++ b)) =
        some ('/' :: '*' :: (t ++ (v ++ l)), r) := by
      change (commentTail (t ++ (v ++ b))).map _ = _
      rw [commentTail_append_of_none h hv, hlr]
      rfl
    exact ⟨_, _, _, _, hread hw, hread hw', .behind ⟨l, exact_commentTail hlr⟩⟩
  | @closed _ _ l r h hr =>
    have hread (s : Text) : comment ('/' :: '*' :: t ++ s) = some ('/' :: '*' :: l, r ++ s) := by
      change (commentTail (t ++ s)).map _ = _
      rw [commentTail_append_of_some h]
      rfl
    exact ⟨_, _, _, _, hread _, hread _, .before hr⟩
  | char _ hopen _ => cases hopen
  | quote hc => simp at hc
  | string hc => simp at hc

theorem lockstep_comment : comment.Lockstep (Alike w w' b p) (Alike w w' b p) := by
  refine lockstep_of_before productive_comment.1 fun t ht ↦ ?_
  rcases ht.cases with ⟨t, rfl⟩ | ⟨c, u, rfl, hopen⟩
  · obtain ⟨l, r, l', r', h, h', hr⟩ := exists_comment hw hw' hb ht
    exact .read h h' hr
  · exact .refused (comment_eq_none (hopen _)) (comment_eq_none (hopen _))

theorem lockstep_shielded : shielded.Lockstep (Alike w w' b .rest) (Alike w w' b .rest) :=
  (lockstep_comment hw hw' hb).orElse (lockstep_string hw hw')

/-- Where no comment and no string starts, a text in front of the part starts with a character. -/
theorem EndsInComment.exists_cons {t : Text} (h : EndsInComment .rest t)
    (hs : shielded (t ++ (w ++ b)) = none) :
    ∃ c u, t = c :: u ∧ (∀ s, opensComment (c :: (u ++ s)) = false) ∧
      (c ∈ ['"', '\''] → stringTail c u = none) := by
  rcases h.cases with ⟨u, rfl⟩ | ⟨c, u, rfl, hopen⟩
  · obtain ⟨l, r, _, _, hcomment, -⟩ := exists_comment hw hw' hb h
    cases (orElse_of_some hcomment).symm.trans hs
  · refine ⟨c, u, rfl, hopen, fun hc ↦ ?_⟩
    cases hread : stringTail c u with
    | none => rfl
    | some x =>
      obtain ⟨l, r⟩ := x
      have hc' : c = '"' ∨ c = '\'' := by simpa using hc
      have hslash : c ≠ '\\' := by rcases hc' with rfl | rfl <;> decide
      have hstring : Lexeme.string (c :: (u ++ (w ++ b))) = some (c :: l, r ++ (w ++ b)) := by
        refine (if_pos hc').trans ?_
        rw [stringTail_append_of_some hslash hread, Option.map_some]
      cases (orElse_eq_none hs).2.symm.trans hstring

/-- Where nothing hides the characters of alike texts, they have the same character in front of
alike texts, or both are at their end. -/
theorem Alike.cases_of_shielded (h : Alike w w' b .rest s s') (hs : shielded s = none) :
    (s = [] ∧ s' = []) ∨ ∃ c r r', s = c :: r ∧ s' = c :: r' ∧ Alike w w' b .rest r r' := by
  cases h with
  | before ht =>
    obtain ⟨c, u, rfl, hopen, hstring⟩ := ht.exists_cons hw hw' hb hs
    have hu := ht.tail (by simpa using hopen []) fun hc ↦ .inl (hstring hc)
    exact .inr ⟨c, _, _, rfl, rfl, .before hu.rest⟩
  | behind hs =>
    cases s with
    | nil => exact .inl ⟨rfl, rfl⟩
    | cons c r => exact .inr ⟨c, r, r, rfl, rfl, .behind ((List.suffix_cons c r).trans hs)⟩

theorem lockstep_groupTail (opener closer : Char) (depth : Nat) :
    Lockstep (Alike w w' b .rest) (Alike w w' b .rest) (groupTail opener closer depth) := by
  intro s s' h
  induction hn : s.length using Nat.strong_induction_on generalizing s s' depth with
  | _ n ih =>
    subst hn
    cases lockstep_shielded hw hw' hb h with
    | read h₁ h₁' hr =>
      exact (ih _ (productive_shielded.length_lt h₁) depth hr rfl).of_map
        (groupTail_of_shielded h₁) (groupTail_of_shielded h₁')
    | refused h₁ h₁' =>
      rcases h.cases_of_shielded hw hw' hb h₁ with ⟨rfl, rfl⟩ | ⟨c, r, r', rfl, rfl, hr⟩
      · exact .refused (groupTail_nil depth) (groupTail_nil depth)
      · have hchar : groupTail opener closer depth (c :: r) = _ := groupTail_cons h₁
        have hchar' : groupTail opener closer depth (c :: r') = _ := groupTail_cons h₁'
        split at hchar
        · rename_i hc
          rw [if_pos hc] at hchar'
          cases depth with
          | zero => exact .read hchar hchar' hr
          | succ depth => exact (ih _ (by simp) depth hr rfl).of_map hchar hchar'
        · rename_i hc
          rw [if_neg hc] at hchar'
          exact (ih _ (by simp) _ hr rfl).of_map hchar hchar'

theorem lockstep_group {opener : Char} (closer : Char) (hopener : opener ∈ ['(', '[']) :
    (group opener closer).Lockstep (Alike w w' b .rest) (Alike w w' b .rest) := by
  have hslash : opener ≠ '/' := by
    rintro rfl
    simp at hopener
  refine lockstep_of_before (productive_group opener closer).1 fun t ht ↦ ?_
  rcases ht.cases with ⟨u, rfl⟩ | ⟨c, u, rfl, hopen⟩
  · exact .refused (if_neg hslash.symm) (if_neg hslash.symm)
  · by_cases hc : c = opener
    · have hu : EndsInComment .rest u := by
        refine (ht.tail (by simpa using hopen []) fun hquote ↦ ?_).rest
        simp only [hc, List.mem_cons, List.not_mem_nil, or_false] at hopener hquote
        rcases hopener with rfl | rfl <;> simp at hquote
      have htail := lockstep_groupTail hw hw' hb opener closer 0 (.before hu)
      exact htail.of_map (if_pos hc) (if_pos hc)
    · exact .refused (if_neg hc) (if_neg hc)

theorem lockstep_closed : closed.Lockstep (Alike w w' b .rest) (Alike w w' b .rest) :=
  (lockstep_shielded hw hw' hb).orElse <|
    (lockstep_group hw hw' hb ')' (by decide)).orElse (lockstep_group hw hw' hb ']' (by decide))

/-! ## Longer stretches -/

theorem lockstep_atom : atom.Lockstep (Alike w w' b .rest) (Alike w w' b .rest) :=
  (lockstep_closed hw hw' hb).orElse
    (lockstep_unlessComment (leads (fun _ ↦ by decide) fun _ _ ↦ .inl rfl))

omit hw hw' hb in
theorem lockstep_spaces : spaces.Lockstep (Alike w w' b .rest) (Alike w w' b .rest) :=
  fun _ _ h ↦ .read rfl rfl h.dropSpaces

omit hw hw' hb in
theorem lockstep_atName : atName.Lockstep (Alike w w' b .rest) (Alike w w' b .rest) :=
  (lockstep_char (by decide) (leads (fun _ ↦ by decide) fun _ _ ↦ .inl rfl)).many1
    (productive_char _)

omit hw hw' hb in
theorem lockstep_colon : colon.Lockstep (Alike w w' b .rest) (Alike w w' b .rest) :=
  lockstep_spaces.seq <| (lockstep_char (by decide)
    (leads (fun _ ↦ by decide) fun _ _ ↦ .inl rfl)).seq lockstep_spaces

omit hw hw' hb in
theorem lockstep_trailing : trailing.Lockstep (Alike w w' b .rest) (Alike w w' b .rest) :=
  ((lockstep_char (by decide) leads_isSpace).many1 (productive_char _)).followedBy
    fun _ _ h ↦ by rw [h.head?_eq]

theorem lockstep_prelude : prelude.Lockstep (Alike w w' b .rest) (Alike w w' b .rest) :=
  (lockstep_atom hw hw' hb).seq
    ((lockstep_spaces.seq (lockstep_atom hw hw' hb)).star productive_step)

/-- A name is read where an item starts. Behind a character of it the name may go on. -/
theorem lockstep_property : property.Lockstep (Alike w w' b .start) (Alike w w' b .name) := by
  have hleads : Leads .name .name fun c ↦ !(isSpace c || c ∈ [':', ';', '{', '}']) := by
    refine leads nofun fun c hc ↦ .inr ?_
    unfold Place.after
    grind
  have hname : property.Lockstep (Alike w w' b .name) (Alike w w' b .name) :=
    ((lockstep_comment hw hw' hb).orElse (lockstep_unlessComment hleads)).many1
      (productive_comment.orElse (productive_unlessComment _))
  exact fun _ _ h ↦ hname h.name

/-! ## Comments that stand for themselves -/

theorem lockstep_tailAtom : tailAtom.Lockstep (Alike w w' b .rest) (Alike w w' b .rest) := by
  intro s s' h
  cases lockstep_closed hw hw' hb h with
  | read h₁ h₁' hr => exact .read (orElse_of_some h₁) (orElse_of_some h₁') hr
  | refused h₁ h₁' =>
    -- no comment starts here, so that the next character is the same
    rcases h.cases_of_shielded hw hw' hb (orElse_eq_none h₁).1 with
      ⟨rfl, rfl⟩ | ⟨c, r, r', rfl, rfl, hr⟩
    · exact .refused (orElse_of_none h₁) (orElse_of_none h₁')
    · cases inStep_char (fun c ↦ !(c ∈ ['{', '}', ';'])) c fun _ ↦ hr with
      | refused h₂ h₂' =>
        exact .refused ((orElse_of_none h₁).trans h₂) ((orElse_of_none h₁').trans h₂')
      | read h₂ h₂' hr =>
        exact .read ((orElse_of_none h₁).trans h₂) ((orElse_of_none h₁').trans h₂') hr

theorem sameTest_opensBlock_decider :
    SameTest (Alike w w' b .rest) fun s ↦ opensBlock (decider s) := by
  intro s s' h
  have hhead := ((lockstep_tailAtom hw hw' hb).many productive_tailAtom h).head?_eq
  simp only [opensBlock, decider, hhead]

theorem sameTest_isPropertyTail : SameTest (Alike w w' b .rest) isPropertyTail := by
  intro s s' h
  have hspaces := h.dropSpaces
  unfold isPropertyTail
  generalize s.dropWhile isSpace = v, s'.dropWhile isSpace = v' at hspaces
  cases hspaces with
  | behind => rfl
  | before ht =>
    rcases ht.cases with ⟨u, rfl⟩ | ⟨c, u, rfl, hopen⟩
    · rfl
    · by_cases hc : c = ':'
      · subst hc
        have hu := ht.tail (by simpa using hopen []) (by simp)
        exact congrArg (!·) (sameTest_opensBlock_decider hw hw' hb (.before hu))
      · simp [hc]

theorem sameTest_isSelectorTail : SameTest (Alike w w' b .rest) isSelectorTail := by
  intro s s' h
  have hdecider := sameTest_opensBlock_decider hw hw' hb h
  have hhead := h.head?_eq
  cases s with
  | nil =>
    cases s' with
    | nil => rfl
    | cons c r => simp at hhead
  | cons c r =>
    cases s' with
    | nil => simp at hhead
    | cons c' r' =>
      obtain rfl : c = c' := by simpa using hhead
      simp only [isSelectorTail, hdecider]

theorem lockstep_loneComment : loneComment.Lockstep (Alike w w' b p) (Alike w w' b p) := by
  refine (lockstep_comment hw hw' hb).followedBy fun s s' h ↦ ?_
  have hblock : opensBlock (s.dropWhile isSpace) = opensBlock (s'.dropWhile isSpace) := by
    rw [opensBlock, opensBlock, h.rest.dropSpaces.head?_eq]
  simp only [sameTest_isPropertyTail hw hw' hb h.rest, sameTest_isSelectorTail hw hw' hb h.rest,
    hblock]

/-! ## Between items -/

/-- What is left behind an item: texts that are alike, such that an item may start behind the next
gap. -/
def Ready (w w' b s s' : Text) : Prop :=
  Alike w w' b .rest s s' ∧ InStep (Alike w w' b .start) gap s s'

omit hw hw' hb in
theorem Alike.inStep_gap (h : Alike w w' b .start s s') :
    InStep (Alike w w' b .start) gap s s' := by
  have hleads : Leads .start .start fun c ↦ isSpace c || c == ';' := by
    refine leads nofun fun c hc ↦ .inr ?_
    simp only [isSpace, Bool.or_eq_true, beq_iff_eq] at hc
    rcases hc with ((((rfl | rfl) | rfl) | rfl) | rfl) | rfl <;> decide
  exact .read rfl rfl (h.dropWhile (by decide) hleads)

omit hw hw' hb in
theorem Alike.ready (h : Alike w w' b .start s s') : Ready w w' b s s' := ⟨h.rest, h.inStep_gap⟩

omit hw hw' hb in
/-- Behind a brace an item may start. -/
theorem lockstep_brace {x : Char} (hx : x ∈ ['{', '}']) :
    (Scanner.char (· == x)).Lockstep (Alike w w' b p) (Ready w w' b) := by
  have hx' : x = '{' ∨ x = '}' := by simpa using hx
  have hslash : ('/' == x) = false := by rcases hx' with rfl | rfl <;> rfl
  have hleads : Leads p .start (· == x) := by
    refine leads (fun _ ↦ ?_) fun c hc ↦ .inr ?_
    · rcases hx' with rfl | rfl <;> decide
    · obtain rfl := beq_iff_eq.1 hc
      rcases hx' with rfl | rfl <;> rfl
  exact (lockstep_char hslash hleads).mono Alike.ready

/-- Behind a selector, parameters or a value, an item may start: what ends them is a brace or a
semicolon, or a quote or a group that is not closed. -/
theorem Alike.start_of_stops (h : Alike w w' b .rest s s') (hs : Stops s) :
    Alike w w' b .start (s.dropWhile isSpace) (s'.dropWhile isSpace) := by
  have hspaces := h.dropSpaces
  have hhead := List.head?_dropWhile_not isSpace s
  rw [Stops] at hs
  generalize s.dropWhile isSpace = v, s'.dropWhile isSpace = v' at hspaces hs hhead
  cases hspaces with
  | behind hs => exact .behind hs
  | before ht =>
    obtain ⟨hclosed, hplain⟩ := orElse_eq_none hs
    obtain ⟨c, u, rfl, hopen, hstring⟩ := ht.exists_cons hw hw' hb (orElse_eq_none hclosed).1
    refine .before ?_
    cases ht with
    | unclosed => cases hopen []
    | closed => cases hopen []
    | quote hc hnone hu => exact .quote hc hnone hu
    | string hc hsome _ _ => cases (hstring hc).symm.trans hsome
    | char hc hopen' hu =>
      have hchar := (if_neg (Bool.eq_false_iff.1 (hopen _))).symm.trans hplain
      have hafter : Place.rest.after c = Place.start.after c := by
        simp only [Scanner.char] at hchar
        unfold Place.after
        grind
      refine .char hc hopen' ?_
      rwa [hafter] at hu

theorem Alike.ready_of_stops (h : Alike w w' b .rest s s') (hs : Stops s) :
    Ready w w' b s s' := by
  have hgap (s : Text) : (s.dropWhile isSpace).dropWhile (fun c ↦ isSpace c || c == ';') =
      s.dropWhile fun c ↦ isSpace c || c == ';' := by
    induction s with
    | nil => rfl
    | cons c s ih =>
      cases hc : isSpace c with
      | false => simp [hc]
      | true => simpa [hc] using ih
  refine ⟨h, ?_⟩
  cases (h.start_of_stops hw hw' hb hs).inStep_gap with
  | refused hread => cases hread
  | read hread hread' hr =>
    cases hread
    cases hread'
    rw [hgap, hgap] at hr
    exact .read rfl rfl hr

end Alike

end Css.Lexeme

end EmbeddedCss
