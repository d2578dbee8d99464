import EmbeddedCss.Marker.Context
import EmbeddedCss.Proofs.Css.Lockstep
import EmbeddedCss.Proofs.Css.Provenance

/-! # Comments behind text without strings

To place a marker, the literals are read by rules that are simpler than the grammar: every quote
starts a string there, where the grammar takes a quote for a character if nothing closes it or if it
stands in the name of a property. As long as no quote stands outside of a comment, the two agree on
what is a comment. Each lexeme then leads from code to code, and so every comment of a tree starts
where the simpler rules see code. -/

namespace EmbeddedCss

open Css.Lexeme

/-! ## Contexts -/

namespace Marker

namespace Context

/-- A character that opens nothing is passed over in code. -/
theorem after_code_cons {c : Char} {t : Text} (hquote : c ∉ ['"', '\''])
    (hopen : opensComment (c :: t) = false) : code.after (c :: t) = code.after t := by
  rw [after, if_neg (by simpa using hquote)]
  rintro u rfl rfl
  cases hopen

/-- Behind the end of a comment there is code. -/
theorem after_comment_of_commentTail {s l r t : Text} (h : commentTail s = some (l, r))
    (ht : t <+: r) : comment.after (l ++ t) = code.after t := by
  fun_induction commentTail s generalizing l r with
  | case1 => cases h
  | case2 =>
    obtain ⟨rfl, -⟩ := Prod.mk.inj (Option.some.inj h)
    rfl
  | case3 c s hne ih =>
    obtain ⟨⟨l, r⟩, hs, he⟩ := Option.map_eq_some_iff.1 h
    obtain ⟨rfl, rfl⟩ := Prod.mk.inj he
    rw [List.cons_append, after_comment_cons, ih hs ht]
    -- what was read goes on as the text does
    rintro u rfl hu
    obtain ⟨v, rfl⟩ := ht
    have hs' := exact_commentTail hs
    rw [← List.append_assoc, hu] at hs'
    exact hne (u ++ v) rfl hs'.symm

/-- In front of a character inside of a comment there is the comment, and behind it there is the end
of the comment. -/
theorem after_comment_of_covers {a b l r : Text} (h : commentTail (a ++ 'x' :: b) = some (l, r))
    (hl : Text.size a < Text.size l) :
    comment.after a = comment ∧ (commentTail b).isSome = true := by
  induction a generalizing l with
  | nil =>
    rw [List.nil_append, commentTail_cons (by simp)] at h
    exact ⟨rfl, by simpa using Option.isSome_of_eq_some h⟩
  | cons c a ih =>
    by_cases hclose : ∃ t, c = '*' ∧ a ++ 'x' :: b = '/' :: t
    · obtain ⟨t, rfl, ht⟩ := hclose
      cases a with
      | nil => simp at ht
      | cons d a =>
        obtain ⟨rfl, -⟩ := List.cons.inj ht
        obtain ⟨rfl, -⟩ := Prod.mk.inj (Option.some.inj h)
        simp only [Text.size_cons, Text.size_nil] at hl
        omega
    · have hne : ∀ t, c = '*' → a ++ 'x' :: b ≠ '/' :: t := fun t hc ht ↦ hclose ⟨t, hc, ht⟩
      rw [List.cons_append, commentTail_cons hne] at h
      obtain ⟨⟨l, r⟩, hs, he⟩ := Option.map_eq_some_iff.1 h
      obtain ⟨rfl, rfl⟩ := Prod.mk.inj he
      rw [after_comment_cons]
      · exact ih hs (by simpa [Text.size_cons] using hl)
      · rintro u hc rfl
        exact hne (u ++ 'x' :: b) hc rfl

end Context

/-- No quote of a text stands outside of its comments, so that nothing in it is read as a string. -/
def Unquoted (t : Text) : Prop := ∀ u, u <+: t → ∀ quote, Context.code.after u ≠ .string quote

theorem Unquoted.left {s t : Text} (h : Unquoted (s ++ t)) : Unquoted s :=
  fun u hu ↦ h u (hu.trans (List.prefix_append s t))

/-- What is left of a text behind a part that leads from code to code. -/
theorem Unquoted.right {s t : Text} (h : Unquoted (s ++ t))
    (hs : ∀ u, u <+: t → Context.code.after (s ++ u) = Context.code.after u) : Unquoted t := by
  intro u hu quote
  rw [← hs u hu]
  exact h _ ((List.prefix_append_right_inj s).2 hu) quote

/-- A text without quotes outside of comments does not start with one. -/
theorem Unquoted.notMem {c : Char} {t : Text} (h : Unquoted (c :: t)) : c ∉ ['"', '\''] := by
  intro hc
  refine h [c] ⟨t, rfl⟩ c ?_
  rw [List.mem_pair] at hc
  rcases hc with rfl | rfl <;> rfl

end Marker

/-! ## From code to code -/

namespace Css.Lexeme

open Marker (Context Unquoted)

/-- A text holds a comment that is closed. -/
def HoldsComment (t : Text) : Prop := ∃ s, s <:+ t ∧ (comment s).isSome = true

/-- What stands in front of `r` in a text leads from code to code, if no quote of it stands outside
of a comment. The opening of a comment that is never closed stands for itself, and so this is asked
for only if a comment follows. -/
def Passed (s r : Text) : Prop :=
  ∃ l, s = l ++ r ∧ (Unquoted l → HoldsComment r →
    ∀ t, t <+: r → Context.code.after (l ++ t) = Context.code.after t)

theorem Passed.refl (s : Text) : Passed s s := ⟨[], rfl, fun _ _ _ _ ↦ rfl⟩

theorem Passed.trans {s t r : Text} (h : Passed s t) (h' : Passed t r) : Passed s r := by
  obtain ⟨l, rfl, hl⟩ := h
  obtain ⟨l', rfl, hl'⟩ := h'
  refine ⟨l ++ l', (List.append_assoc ..).symm, fun hquote hr u hu ↦ ?_⟩
  have hafter := hl hquote.left (hr.imp fun s hs ↦ ⟨hs.1.trans (List.suffix_append ..), hs.2⟩)
  have hquote' := hquote.right fun v hv ↦ hafter v (hv.trans (List.prefix_append ..))
  rw [List.append_assoc, hafter _ ((List.prefix_append_right_inj l').2 hu), hl' hquote' hr u hu]

/-- A comment is its opening with what follows it. -/
theorem exists_commentTail {s l r : Text} (h : comment s = some (l, r)) :
    ∃ t m, s = '/' :: '*' :: t ∧ l = '/' :: '*' :: m ∧ commentTail t = some (m, r) := by
  unfold comment at h
  split at h
  · rename_i t
    obtain ⟨⟨m, r⟩, ht, he⟩ := Option.map_eq_some_iff.1 h
    obtain ⟨rfl, rfl⟩ := Prod.mk.inj he
    exact ⟨t, m, rfl, rfl, ht⟩
  · cases h

/-- A comment is closed if it is closed in a part of what follows. -/
theorem isSome_commentTail_of_suffix {s t : Text} (hs : s <:+ t)
    (h : (commentTail s).isSome = true) : (commentTail t).isSome = true := by
  obtain ⟨u, rfl⟩ := hs
  induction u with
  | nil => exact h
  | cons c u ih =>
    rw [List.cons_append]
    by_cases hclose : ∃ v, c = '*' ∧ u ++ s = '/' :: v
    · obtain ⟨v, rfl, hv⟩ := hclose
      rw [hv]
      rfl
    · rw [commentTail_cons fun v hc hv ↦ hclose ⟨v, hc, hv⟩, Option.isSome_map]
      exact ih

/-- A character that starts no comment is passed. -/
theorem passed_cons {c : Char} {t : Text} (h : comment (c :: t) = none) : Passed (c :: t) t := by
  refine ⟨[c], rfl, fun hquote hcomment u hu ↦ Context.after_code_cons hquote.notMem ?_⟩
  rw [Bool.eq_false_iff]
  intro hopen
  obtain ⟨v, he⟩ := exists_of_opensComment hopen
  obtain ⟨rfl, rfl⟩ := List.cons.inj he
  obtain ⟨w, rfl⟩ := hu
  -- the comment that follows would close this one
  have hnone : commentTail (v ++ w) = none := Option.map_eq_none_iff.1 h
  obtain ⟨s, hs, hsome⟩ := hcomment
  obtain ⟨⟨l, r⟩, hread⟩ := Option.isSome_iff_exists.1 hsome
  obtain ⟨s, l, rfl, -, htail⟩ := exists_commentTail hread
  have hsuffix : s <:+ v ++ w := by
    rcases List.suffix_cons_iff.1 hs with he | hs
    · simp at he
    · exact (List.suffix_append ['/', '*'] s).trans hs
  have hclosed := isSome_commentTail_of_suffix hsuffix (Option.isSome_of_eq_some htail)
  rw [hnone] at hclosed
  cases hclosed

theorem passed_of_ne {c : Char} (hc : c ≠ '/') (t : Text) : Passed (c :: t) t :=
  passed_cons (comment_eq_none (opensComment_eq_false hc t))

/-- If no quote stands outside of a comment, the grammar has one way through a text only. -/
theorem endsInComment_of_unquoted {p : Place} {t : Text} (h : Unquoted t)
    (hctx : Context.code.after t = .comment) : EndsInComment p t := by
  induction hn : t.length using Nat.strong_induction_on generalizing p t with
  | _ n ih =>
    subst hn
    cases t with
    | nil => cases hctx
    | cons c t =>
      cases hopen : opensComment (c :: t) with
      | false =>
        have hafter (u : Text) (hu : u <+: t) :
            Context.code.after ([c] ++ u) = Context.code.after u := by
          refine Context.after_code_cons h.notMem (Bool.eq_false_iff.2 fun hu' ↦ ?_)
          obtain ⟨v, he⟩ := exists_of_opensComment hu'
          obtain ⟨rfl, rfl⟩ := List.cons.inj he
          obtain ⟨w, rfl⟩ := hu
          cases hopen
        rw [Context.after_code_cons h.notMem hopen] at hctx
        exact .char h.notMem hopen (ih t.length (by simp) (Unquoted.right h hafter) hctx rfl)
      | true =>
        obtain ⟨u, he⟩ := exists_of_opensComment hopen
        obtain ⟨rfl, rfl⟩ := List.cons.inj he
        cases htail : commentTail u with
        | none => exact .unclosed htail
        | some q =>
          obtain ⟨l, r⟩ := q
          obtain rfl := exact_commentTail htail
          have hafter (v : Text) (hv : v <+: r) :
              Context.code.after ('/' :: '*' :: l ++ v) = Context.code.after v :=
            Context.after_comment_of_commentTail htail hv
          have hr : Context.code.after r = .comment := (hafter r List.prefix_rfl).symm.trans hctx
          exact .closed htail (ih r.length (by simp; omega) (h.right hafter) hr rfl)

end Css.Lexeme

/-! ## Lexemes -/

namespace Scanner

/-- A scanner leads from code to code. -/
def Passes (a : Scanner) : Prop := ∀ ⦃s l r⦄, a s = some (l, r) → Passed s r

variable {a a' : Scanner}

theorem Passes.seq (ha : a.Passes) (ha' : a'.Passes) : (Scanner.seq a a').Passes := by
  intro s l r h
  obtain ⟨l₁, r₁, l₂, h₁, h₂, -⟩ := seq_eq_some_iff.1 h
  exact (ha h₁).trans (ha' h₂)

theorem Passes.orElse (ha : a.Passes) (ha' : a'.Passes) : (Scanner.orElse a a').Passes :=
  fun _ _ _ h ↦ (orElse_eq_some h).elim (@ha _ _ _) (@ha' _ _ _)

theorem Passes.followedBy (ha : a.Passes) (test : Text → Bool) :
    (Scanner.followedBy a test).Passes := fun _ _ _ h ↦ ha (of_followedBy h).1

theorem Passes.upTo (ha : a.Passes) (n : Nat) (s : Text) : Passed s (Scanner.upTo a n s).2 := by
  induction n generalizing s with
  | zero => exact .refl s
  | succ n ih =>
    rw [Scanner.upTo]
    split
    · exact .refl s
    · exact (ha ‹_›).trans (ih _)

theorem Passes.star (ha : a.Passes) : (Scanner.star a).Passes := by
  intro s l r h
  obtain rfl : (Scanner.many a s).2 = r := congrArg Prod.snd (Option.some.inj h)
  exact ha.upTo _ s

theorem Passes.many1 (ha : a.Passes) : (Scanner.many1 a).Passes := ha.seq ha.star

theorem passes_char {p : Char → Bool} (hp : p '/' = false) : (char p).Passes := by
  rintro (_ | ⟨c, t⟩) l r h
  · cases h
  · obtain ⟨hc, hr⟩ := Option.ite_none_right_eq_some.1 h
    cases hr
    exact passed_of_ne (fun h ↦ by simp [h, hp] at hc) t

theorem passes_run {p : Char → Bool} (hp : p '/' = false) : (run p).Passes := by
  intro s l r h
  obtain rfl : s.dropWhile p = r := congrArg Prod.snd (Option.some.inj h)
  clear h
  induction s with
  | nil => exact .refl []
  | cons c t ih =>
    by_cases hc : p c = true
    · rw [List.dropWhile_cons_of_pos hc]
      have hchar : char p (c :: t) = some ([c], t) := if_pos hc
      exact (passes_char hp hchar).trans ih
    · rw [List.dropWhile_cons_of_neg hc]
      exact .refl _

end Scanner

namespace Css.Lexeme

open Scanner
open Marker (Context Unquoted)

theorem passes_comment : comment.Passes := by
  intro s l r h
  refine ⟨l, (productive_comment.1 h).symm, fun _ _ t ht ↦ ?_⟩
  obtain ⟨s, m, rfl, rfl, hs⟩ := exists_commentTail h
  exact Context.after_comment_of_commentTail hs ht

theorem passes_unlessComment {p : Char → Bool} :
    Passes fun s ↦ if opensComment s then none else Scanner.char p s := by
  rintro (_ | ⟨c, t⟩) l r h
  · cases h
  · obtain ⟨hopen, h⟩ := Option.ite_none_left_eq_some.1 h
    obtain ⟨-, hr⟩ := Option.ite_none_right_eq_some.1 h
    cases hr
    exact passed_cons (comment_eq_none (Bool.eq_false_iff.2 hopen))

/-- A string starts with a quote, and so it is not passed in a text without them. -/
theorem passes_string : string.Passes := by
  intro s l r h
  refine ⟨l, (productive_string.1 h).symm, fun hquote ↦ ?_⟩
  cases s with
  | nil => cases h
  | cons c t =>
    obtain ⟨hc, h⟩ := Option.ite_none_right_eq_some.1 h
    obtain ⟨⟨m, r⟩, -, he⟩ := Option.map_eq_some_iff.1 h
    obtain ⟨rfl, -⟩ := Prod.mk.inj he
    exact absurd (by simpa using hc) hquote.notMem

theorem passes_shielded : shielded.Passes := passes_comment.orElse passes_string

theorem comment_of_shielded {s : Text} (h : shielded s = none) : comment s = none := by
  cases hs : comment s with
  | none => rfl
  | some p => simp [shielded, Scanner.orElse, hs] at h

theorem passes_groupTail (opener closer : Char) (depth : Nat) :
    Passes (groupTail opener closer depth) := by
  intro s
  fun_induction groupTail opener closer depth s with
  | case1 depth s l r h ih =>
    intro l' r' h'
    obtain ⟨⟨m, r⟩, hm, he⟩ := Option.map_eq_some_iff.1 h'
    cases he
    exact (passes_shielded h).trans (ih hm)
  | case2 =>
    intro l r h
    cases h
  | case3 t hnone =>
    intro l r h
    cases h
    exact passed_cons (comment_of_shielded hnone)
  | case4 t depth hnone ih =>
    intro l r h
    obtain ⟨⟨m, r⟩, hm, he⟩ := Option.map_eq_some_iff.1 h
    cases he
    exact (passed_cons (comment_of_shielded hnone)).trans (ih hm)
  | case5 depth c t hnone hc ih =>
    intro l r h
    obtain ⟨⟨m, r⟩, hm, he⟩ := Option.map_eq_some_iff.1 h
    cases he
    exact (passed_cons (comment_of_shielded hnone)).trans (ih hm)

theorem passes_group {opener : Char} (closer : Char) (hopener : opener ≠ '/') :
    (group opener closer).Passes := by
  rintro (_ | ⟨c, t⟩) l r h
  · cases h
  · obtain ⟨rfl, h⟩ := Option.ite_none_right_eq_some.1 h
    obtain ⟨⟨m, r⟩, hm, he⟩ := Option.map_eq_some_iff.1 h
    cases he
    exact (passed_of_ne hopener t).trans (passes_groupTail c closer 0 hm)

theorem passes_closed : closed.Passes :=
  passes_shielded.orElse ((passes_group ')' (by decide)).orElse (passes_group ']' (by decide)))

theorem passes_atom : atom.Passes := passes_closed.orElse passes_unlessComment

theorem passes_spaces : spaces.Passes := passes_run (by decide)

theorem passes_prelude : prelude.Passes := passes_atom.seq (passes_spaces.seq passes_atom).star

theorem passes_property : property.Passes := (passes_comment.orElse passes_unlessComment).many1

theorem passes_colon : colon.Passes :=
  passes_spaces.seq ((passes_char (by decide)).seq passes_spaces)

theorem passes_trailing : trailing.Passes := (passes_char (by decide)).many1.followedBy _

theorem passes_atName : atName.Passes := (passes_char (by decide)).many1

theorem passes_gap : gap.Passes := passes_run (by decide)

theorem passes_loneComment : loneComment.Passes := passes_comment.followedBy _

end Css.Lexeme

/-! ## Derivations -/

namespace Css

theorem MayRead.passed {a : Scanner} (ha : a.Passes) {s r : Text} {l : Option Text}
    (h : MayRead a s l r) : Passed s r := by
  cases h with
  | some h => exact ha h
  | none => exact .refl s

theorem ParamsRead.passed {s r : Text} {params : Option (Text × Text)}
    (h : ParamsRead s params r) : Passed s r := by
  cases h with
  | some hspace hparams => exact (passes_spaces hspace).trans (passes_prelude hparams)
  | none => exact .refl s

/-- The name and the parameters of an at-rule lead from code to code. -/
theorem passed_atStart {s name s₁ r : Text} {params : Option (Text × Text)}
    (h₁ : atName s = some (name, s₁)) (h₂ : ParamsRead s₁ params r) : Passed ('@' :: s) r :=
  (passed_of_ne (c := '@') (by decide) s).trans ((passes_atName h₁).trans h₂.passed)

mutual

theorem Item.Reads.passed : {s r : Text} → {i : Item} → Item.Reads s i r → Passed s r
  | _, _, _, .comment h => passes_loneComment h
  | _, r, _, .rule h₁ h₂ hb => by
    have hopen := (passes_prelude h₁).trans (passes_spaces h₂) |>.trans (passed_of_ne (by decide) _)
    exact hopen.trans hb.passed |>.trans (passed_of_ne (by decide) r)
  | _, _, _, .bare h₁ h₂ => passed_atStart h₁ h₂
  | _, _, _, .statement h₁ h₂ h₃ => (passed_atStart h₁ h₂).trans (passes_spaces h₃)
  | _, r, _, .atBlock h₁ h₂ h₃ hb => by
    have hopen := (passed_atStart h₁ h₂).trans (passes_spaces h₃)
      |>.trans (passed_of_ne (by decide) _)
    exact hopen.trans hb.passed |>.trans (passed_of_ne (by decide) r)
  | _, _, _, .decl h₁ h₂ h₃ h₄ => by
    have hcolon := (passes_property h₁).trans (passes_colon h₂)
    exact hcolon.trans ((h₃.passed passes_prelude).trans (h₄.passed passes_trailing))

/-- What is read leads from code to code. -/
theorem Body.Reads.passed : {s r : Text} → {b : Body} → Body.Reads s b r → Passed s r
  | _, _, _, .done h => passes_gap h
  | _, _, _, .item h₁ h₂ h₃ => (passes_gap h₁).trans h₂.passed |>.trans h₃.passed

end

/-! ## Comments of a tree -/

/-- What stands in front of an offset leads from code to code, and `s` stands behind it. -/
structure Reached (css : Text) (offset : Nat) (s : Text) : Prop where
  standsAt : css.StandsAt offset s
  passed : Passed css s

section

variable {css s l r : Text} {offset : Nat}

/-- Behind a lexeme stands what it leaves. -/
theorem Reached.read {a : Scanner} (h : Reached css offset s) (ha : a.Passes) (hexact : a.Exact)
    (hread : a s = some (l, r)) : Reached css (offset + Text.size l) r :=
  ⟨h.standsAt.read hexact hread, h.passed.trans (ha hread)⟩

theorem Reached.char {c : Char} (h : Reached css offset (c :: r)) (hc : c ≠ '/') :
    Reached css (offset + c.utf8Size) r := ⟨h.standsAt.tail, h.passed.trans (passed_of_ne hc r)⟩

theorem Reached.params {params : Option (Text × Text)} (h : Reached css offset s)
    (hparams : ParamsRead s params r) : Reached css (offset + Text.size (paramsText params)) r :=
  ⟨h.standsAt.params hparams, h.passed.trans hparams.passed⟩

theorem Reached.item {i : Item} (h : Reached css offset s) (hi : Item.Reads s i r) :
    Reached css (offset + Text.size i.text) r := ⟨h.standsAt.item hi, h.passed.trans hi.passed⟩

end

/-- A node stands where a comment stands in a text, behind what leads from code to code. -/
def CommentAt (css : Text) (n : Node) : Prop :=
  ∃ start s l r, n.source = some ⟨start, start + Text.size l⟩ ∧ Reached css start s ∧
    comment s = some (l, r)

/-- An item that gives a comment is one. -/
theorem Item.Reads.commentAt_self {css s r : Text} {i : Item} (h : Item.Reads s i r) {start : Nat}
    (hs : Reached css start s) {before : Text}
    (hkind : (i.toNode start before).kind = .comment) :
    CommentAt css (i.toNode start before) := by
  cases h with
  | comment h => exact ⟨start, s, _, r, rfl, hs, (Scanner.of_followedBy h).1⟩
  | rule => cases hkind
  | bare => cases hkind
  | statement => cases hkind
  | atBlock => cases hkind
  | decl =>
    obtain ⟨_, _, _, h⟩ := exists_ofValue_eq _ _ _ _
    rw [Item.toNode, h] at hkind
    cases hkind

mutual

theorem Item.Reads.commentAt {css : Text} : {s r : Text} → {i : Item} → Item.Reads s i r →
    {start : Nat} → Reached css start s → {before : Text} → {ms : List Node} →
    (i.toNode start before).children? = some ms → {path : Path} → {n : Node} →
    Node.get? ms path = some n → n.kind = .comment → CommentAt css n
  | _, _, _, .comment _, _, _, _, _, hms, _, _, _, _ => by cases hms
  | _, _, _, .rule h₁ h₂ hb, _, hs, _, _, hms, _, _, hn, hkind => by
    cases hms
    have hselector := hs.read passes_prelude productive_prelude.1 h₁
    have hbody := (hselector.read passes_spaces exact_spaces h₂).char (by decide)
    exact hb.commentAt hbody hn hkind
  | _, _, _, .bare _ _, _, _, _, _, hms, _, _, _, _ => by cases hms
  | _, _, _, .statement _ _ _, _, _, _, _, hms, _, _, _, _ => by cases hms
  | _, _, _, .atBlock h₁ h₂ h₃ hb, _, hs, _, _, hms, _, _, hn, hkind => by
    cases hms
    have hname := (hs.char (by decide)).read passes_atName productive_atName.1 h₁
    have hbody := ((hname.params h₂).read passes_spaces exact_spaces h₃).char (by decide)
    exact hb.commentAt hbody hn hkind
  | _, _, _, .decl _ _ _ _, _, _, _, _, hms, _, _, _, _ => by
    obtain ⟨_, _, _, h⟩ := exists_ofValue_eq _ _ _ _
    rw [Item.toNode, h] at hms
    cases hms

/-- The comments in the tree of what is read stand where comments stand in the text. -/
theorem Body.Reads.commentAt {css : Text} : {s r : Text} → {b : Body} → Body.Reads s b r →
    {offset : Nat} → Reached css offset s → {unended : Bool} → {path : Path} → {n : Node} →
    Node.get? (b.contents offset unended).nodes path = some n → n.kind = .comment →
    CommentAt css n
  | _, _, _, _, _, _, _, [], _, hn, _ => by cases hn
  | _, _, _, .done _, _, _, _, _ :: _, _, hn, _ => by
    obtain ⟨m, hm, -⟩ := Node.get?_cons_eq_some.1 hn
    cases hm
  | _, _, _, .item h₁ h₂ h₃, _, hs, _, 0 :: _, _, hn, hkind => by
    -- the path leads to the first item or into it
    have hitem := hs.read passes_gap exact_gap h₁
    obtain ⟨m, hm, ⟨-, rfl⟩ | ⟨ms, hms, hn⟩⟩ := Node.get?_cons_eq_some.1 hn
    · cases hm
      exact h₂.commentAt_self hitem hkind
    · cases hm
      exact h₂.commentAt hitem hms hn hkind
  | _, _, _, .item h₁ h₂ h₃, _, hs, _, (i + 1) :: path, _, hn, hkind => by
    have hrest := (hs.read passes_gap exact_gap h₁).item h₂
    obtain ⟨m, hm, hpath⟩ := Node.get?_cons_eq_some.1 hn
    exact h₃.commentAt hrest (Node.get?_cons_eq_some.2 ⟨m, hm, hpath⟩) hkind

end

/-- The comments of a tree stand where comments stand in the text. -/
theorem commentAt_of_parse {css : Text} {root : Root} (h : parse css = .ok root) {path : Path}
    {n : Node} (hn : root.get? path = some n) (hkind : n.kind = .comment) : CommentAt css n := by
  obtain ⟨b, hb, rfl⟩ := reads_of_parse h
  exact hb.commentAt ⟨Text.standsAt_zero css, .refl css⟩ hn hkind

end Css

end EmbeddedCss
