import EmbeddedCss.Proofs.Css.Provenance
import EmbeddedCss.Proofs.Css.Recognition
import EmbeddedCss.Proofs.Css.Words

/-! # Comments as names of properties

A comment with a colon behind it is the name of a property if the text behind the colon comes to the
end of a declaration before a block opens. Which of the two comes first is looked up when the comment
is read, by a lookahead that takes unclosed quotes and parentheses for plain characters; a selector
stops in front of these. The main lemma is that the difference does not matter: whatever a selector
takes, the lookahead from its end finds the same brace or semicolon as the lookahead from its start.
So no rule is read where the lookahead finds no block. -/

namespace EmbeddedCss.Css

namespace Lexeme

open Scanner
open Text (isSpace)

/-- A text, taken as a sequence of comments, closed strings, closed groups and other characters, comes
to a semicolon, a closing brace or its end before any opening brace. -/
inductive EndsBeforeBlock : Text → Prop
  | nil : EndsBeforeBlock []
  | stop {c : Char} {t : Text} : c ∈ ['}', ';'] → EndsBeforeBlock (c :: t)
  | closed {s l r : Text} : closed s = some (l, r) → EndsBeforeBlock r → EndsBeforeBlock s
  | other {c : Char} {t : Text} : closed (c :: t) = none → c ∉ ['{', '}', ';'] →
      EndsBeforeBlock t → EndsBeforeBlock (c :: t)

/-! ## The lookahead -/

/-- The lookahead passes what is closed. -/
theorem decider_of_closed {s l r : Text} (h : closed s = some (l, r)) : decider s = decider r := by
  have hatom : tailAtom s = some (l, r) := by simp [tailAtom, orElse, h]
  rw [decider, productive_tailAtom.many_of_some hatom]
  rfl

/-- The lookahead passes a character that neither opens anything closed nor decides. -/
theorem decider_cons {c : Char} {t : Text} (h : closed (c :: t) = none)
    (hc : c ∉ ['{', '}', ';']) : decider (c :: t) = decider t := by
  have hatom : tailAtom (c :: t) = some ([c], t) := by
    simp [tailAtom, orElse, h, Scanner.char, hc]
  rw [decider, productive_tailAtom.many_of_some hatom]
  rfl

/-- The lookahead stops at a brace or a semicolon. -/
theorem decider_of_mem {c : Char} (hc : c ∈ ['{', '}', ';']) (t : Text) :
    decider (c :: t) = c :: t := by
  have hclosed : closed (c :: t) = none := by
    refine closed_eq_none ?_ t
    simp only [List.mem_cons, List.not_mem_nil, or_false] at hc
    rcases hc with rfl | rfl | rfl <;> decide
  have hatom : tailAtom (c :: t) = none := by
    simp [tailAtom, orElse, hclosed, Scanner.char, hc]
  rw [decider, many_of_none hatom]

/-- The lookahead finds no block exactly if the text comes to an end before one. -/
theorem endsBeforeBlock_iff (s : Text) : EndsBeforeBlock s ↔ opensBlock (decider s) = false := by
  constructor
  · intro h
    induction h with
    | nil => rfl
    | @stop c t hc =>
      rw [decider_of_mem (List.mem_cons_of_mem _ hc)]
      simp only [List.mem_cons, List.not_mem_nil, or_false] at hc
      rcases hc with rfl | rfl <;> rfl
    | closed h _ ih => rwa [decider_of_closed h]
    | other h hc _ ih => rwa [decider_cons h hc]
  · intro h
    -- on the length of the text, since what is closed may be long
    induction hn : s.length using Nat.strongRecOn generalizing s with
    | ind n ih =>
      subst hn
      cases hclosed : closed s with
      | some p =>
        rw [decider_of_closed hclosed] at h
        exact .closed hclosed (ih _ (productive_closed.length_lt hclosed) _ h rfl)
      | none =>
        cases s with
        | nil => exact .nil
        | cons c t =>
          by_cases hc : c ∈ ['{', '}', ';']
          · rw [decider_of_mem hc] at h
            rcases List.mem_cons.1 hc with rfl | hc
            · cases h
            · exact .stop hc
          · rw [decider_cons hclosed hc] at h
            exact .other hclosed hc (ih _ (Nat.lt_succ_self _) _ h rfl)

instance (s : Text) : Decidable (EndsBeforeBlock s) :=
  decidable_of_iff _ (endsBeforeBlock_iff s).symm

/-! ## Selectors under the lookahead -/

/-- White space is none of some other characters. -/
theorem notMem_of_isSpace {c : Char} (hc : isSpace c = true) {l : List Char}
    (hl : l.any isSpace = false) : c ∉ l := fun h ↦ List.any_eq_false.1 hl c h hc

theorem decider_space {c : Char} (hc : isSpace c = true) (t : Text) :
    decider (c :: t) = decider t :=
  decider_cons (closed_eq_none (notMem_of_isSpace hc (by decide)) t)
    (notMem_of_isSpace hc (by decide))

theorem decider_dropWhile (s : Text) : decider (s.dropWhile isSpace) = decider s := by
  induction s with
  | nil => rfl
  | cons c t ih =>
    cases hc : isSpace c with
    | false => simp [hc]
    | true => rw [List.dropWhile_cons_of_pos hc, ih, decider_space hc]

/-- A piece of a selector is one or more steps of the lookahead. -/
theorem decider_of_atom {s l r : Text} (h : atom s = some (l, r)) : decider r = decider s := by
  cases hclosed : closed s with
  | some p =>
    obtain rfl : p = (l, r) := by simpa [atom, orElse, hclosed] using h
    exact (decider_of_closed hclosed).symm
  | none =>
    have hplain : plain s = some (l, r) := by simpa [atom, orElse, hclosed] using h
    obtain ⟨-, hchar⟩ := Option.ite_none_left_eq_some.1 hplain
    cases s with
    | nil => cases hchar
    | cons c t =>
      obtain ⟨hc, heq⟩ := Option.ite_none_right_eq_some.1 hchar
      obtain ⟨-, rfl⟩ := Prod.mk.inj (Option.some.inj heq)
      simp only [Bool.not_eq_true', Bool.or_eq_false_iff, decide_eq_false_iff_not, List.mem_cons,
        not_or] at hc
      exact (decider_cons hclosed (by simp [hc])).symm

theorem decider_of_step {s l r : Text} (h : seq spaces atom s = some (l, r)) :
    decider r = decider s := by
  obtain ⟨_, r₁, _, h₁, h₂, -⟩ := seq_eq_some_iff.1 h
  obtain rfl : s.dropWhile isSpace = r₁ := congrArg Prod.snd (Option.some.inj h₁)
  rw [decider_of_atom h₂, decider_dropWhile]

theorem decider_upTo_step (n : Nat) (s : Text) :
    decider (upTo (seq spaces atom) n s).2 = decider s := by
  induction n generalizing s with
  | zero => rfl
  | succ n ih =>
    rw [upTo]
    split
    · rfl
    · rename_i l r h
      exact (ih r).trans (decider_of_step h)

/-- A selector as a whole moves the lookahead on: from its end the lookahead finds what it finds from
its start. -/
theorem decider_of_prelude {s l r : Text} (h : prelude s = some (l, r)) :
    decider r = decider s := by
  obtain ⟨_, r₁, _, h₁, h₂, -⟩ := seq_eq_some_iff.1 h
  obtain rfl : (many (seq spaces atom) r₁).2 = r := congrArg Prod.snd (Option.some.inj h₂)
  exact (decider_upTo_step _ r₁).trans (decider_of_atom h₁)

/-! ## Comments in front of a colon -/

variable {s c space t : Text} (hcomment : comment s = some (c, space ++ ':' :: t))
  (hspace : ∀ x ∈ space, isSpace x = true)

include hcomment hspace

/-- A comment in front of a colon is a whole property. -/
theorem property_of_comment : property s = some (c, space ++ ':' :: t) := by
  have hfirst : orElse comment propertyChar s = some (c, space ++ ':' :: t) := by
    simp [orElse, hcomment]
  have hstop : orElse comment propertyChar (space ++ ':' :: t) = none := by
    cases space with
    | nil => rfl
    | cons x space =>
      have hx := hspace x (List.mem_cons_self ..)
      have hslash : x ∉ ['/'] := notMem_of_isSpace hx (by decide)
      have hopens := opensComment_eq_false (by simpa using hslash) (space ++ ':' :: t)
      simp [orElse, comment_eq_none hopens, propertyChar, hopens, Scanner.char, hx]
  refine seq_eq_some_iff.2 ⟨c, _, [], hfirst, ?_, (List.append_nil c).symm⟩
  rw [many_of_none hstop]

/-- The lookahead from such a comment is that from behind the colon. -/
theorem decider_of_comment : decider s = decider t := by
  have hclosed : closed s = some (c, space ++ ':' :: t) := by
    simp [closed, shielded, orElse, hcomment]
  rw [decider_of_closed hclosed, ← decider_dropWhile, List.dropWhile_append_of_pos hspace,
    List.dropWhile_cons_of_neg (by decide)]
  exact decider_cons (closed_eq_none (by decide) t) (by decide)

/-- It is no comment of its own where no block follows. -/
theorem loneComment_eq_none (ht : EndsBeforeBlock t) : loneComment s = none := by
  have htail : isPropertyTail (space ++ ':' :: t) = true := by
    rw [isPropertyTail, List.dropWhile_append_of_pos hspace,
      List.dropWhile_cons_of_neg (by decide)]
    simp [(endsBeforeBlock_iff t).1 ht]
  simp [loneComment, followedBy, hcomment, htail]

/-- No selector and block start with it where no block follows. -/
theorem ne_block_of_prelude (ht : EndsBeforeBlock t) {selector s₁ between s₂ : Text}
    (h₁ : prelude s = some (selector, s₁)) : spaces s₁ ≠ some (between, '{' :: s₂) := by
  intro h₂
  have hblock : s₁.dropWhile isSpace = '{' :: s₂ := congrArg Prod.snd (Option.some.inj h₂)
  have hdecider : decider t = '{' :: s₂ := by
    rw [← decider_of_comment hcomment hspace, ← decider_of_prelude h₁, ← decider_dropWhile, hblock,
      decider_of_mem (by decide)]
  have := (endsBeforeBlock_iff t).1 ht
  rw [hdecider] at this
  cases this

end Lexeme

/-! ## Declarations -/

/-- A comment in front of a colon, with no block before the end of the declaration, is read as the
property of a declaration. -/
theorem Item.Reads.exists_decl {s c space t r : Text} {i : Item} (h : Item.Reads s i r)
    (hcomment : Lexeme.comment s = some (c, space ++ ':' :: t))
    (hspace : ∀ x ∈ space, Text.isSpace x = true) (ht : Lexeme.EndsBeforeBlock t) :
    ∃ colon value, i = .decl c colon value := by
  cases h with
  | comment h => simp [Lexeme.loneComment_eq_none hcomment hspace ht] at h
  | rule h₁ h₂ _ => exact absurd h₂ (Lexeme.ne_block_of_prelude hcomment hspace ht h₁)
  | bare _ _ => cases hcomment
  | statement _ _ _ => cases hcomment
  | atBlock _ _ _ _ => cases hcomment
  | decl h₁ _ _ _ =>
    rw [Lexeme.property_of_comment hcomment hspace] at h₁
    cases h₁
    exact ⟨_, _, rfl⟩

/-- **A comment that names a property.** Where a node starts with a comment, and then white space and
a colon follow, and the text behind the colon comes to a semicolon, a closing brace or its end before
any opening brace, the node is a declaration, and the comment alone is its property. -/
theorem exists_decl_of_comment {css : Text} {root : Root} (h : parse css = .ok root) {n : Node}
    (hn : n ∈ root.walk) {span : Span} (hspan : n.source = some span) {s c space t : Text}
    (hs : css.StandsAt span.start s)
    (hcomment : Lexeme.comment s = some (c, space ++ ':' :: t))
    (hspace : ∀ x ∈ space, Text.isSpace x = true) (ht : Lexeme.EndsBeforeBlock t) :
    ∃ value important layout, n = .decl c value important layout (some span) := by
  obtain ⟨start, s', i, r, hread⟩ := exists_readAt_of_parse h hn
  obtain rfl : ⟨start, start + Text.size i.text⟩ = span :=
    Option.some.inj (hread.source.symm.trans hspan)
  obtain rfl : s' = s := hread.standsAt.unique hs
  obtain ⟨colon, value, rfl⟩ := hread.reads.exists_decl hcomment hspace ht
  obtain ⟨before, rfl⟩ := hread.eq
  exact exists_ofValue_eq _ _ _ _

/-- In a block, a comment with a colon behind it names a property also in front of a parenthesis that
is never closed: the lookahead goes on behind it, while the value ends in front of it and another
declaration starts. -/
theorem exists_decl_of_comment_unclosed : ∃ root n,
    parse "a\x7b/*p*/ : x(y:z;\x7d".toList = .ok root ∧ n ∈ root.walk ∧
      n.source = some ⟨2, 11⟩ ∧ Lexeme.EndsBeforeBlock " x(y:z;\x7d".toList ∧
        ∃ value important layout,
          n = .decl "/*p*/".toList value important layout (some ⟨2, 11⟩) := by
  have key : (parse "a\x7b/*p*/ : x(y:z;\x7d".toList).map
      (fun root ↦ root.walk[1]?.bind Node.source) = .ok (some ⟨2, 11⟩) := by decide +kernel
  have hend : Lexeme.EndsBeforeBlock " x(y:z;\x7d".toList := by decide +kernel
  obtain ⟨root, h, hwalk⟩ := exists_of_map_eq_ok key
  obtain ⟨n, hn, hspan⟩ := Option.bind_eq_some_iff.1 hwalk
  have hmem := List.mem_of_getElem? hn
  have hstands : Text.StandsAt "a\x7b/*p*/ : x(y:z;\x7d".toList 2
      "/*p*/ : x(y:z;\x7d".toList := ⟨['a', '\x7b'], by decide, by decide⟩
  have hcomment : Lexeme.comment "/*p*/ : x(y:z;\x7d".toList =
      some ("/*p*/".toList, [' '] ++ ':' :: " x(y:z;\x7d".toList) := by decide +kernel
  exact ⟨root, n, h, hmem, hspan, hend,
    exists_decl_of_comment h hmem hspan hstands hcomment (List.forall_mem_singleton.2 rfl) hend⟩

end EmbeddedCss.Css
