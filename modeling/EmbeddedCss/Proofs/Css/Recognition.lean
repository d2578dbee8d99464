import EmbeddedCss.Proofs.Css.Exactness
import EmbeddedCss.Proofs.Css.Rules
import EmbeddedCss.Proofs.Peg.Recognition

/-! # Lexemes are what their rules match

Each lexeme is read by a scanner of its own, which looks at one character at a time and, in a group,
counts the groups that are open. Each of these scanners is shown to recognize the rule that it stands
for: it reads exactly what the rule matches, and refuses exactly where the rule fails.

The groups are the difficult case, as their rule contains itself. A group that is never closed may
still stand in one as its single characters; the scanner finds that out by reaching the end of the
text with groups open, the rule by giving up on the inner group. -/

namespace EmbeddedCss.Css.Lexeme

open Scanner Peg RuleName
open Text (isSpace)

variable {q : Bool} {n : Nat}

/-! ## Characters -/

theorem recognizes_lit (c : Char) : Recognizes grammar q n (Scanner.char (· == c)) (lit c) := by
  rw [← text_singleton]
  exact recognizes_text [c]

/-- Classes of characters that are tried one after the other make up one class. -/
theorem recognizes_charOr {p p' : Char → Bool} {e f : Expr RuleName}
    (he : Recognizes grammar q n (Scanner.char p) e)
    (hf : Recognizes grammar q n (Scanner.char p') f) :
    Recognizes grammar q n (Scanner.char fun c ↦ p c || p' c) (.choice e f) := by
  rw [← orElse_char_char]
  exact he.orElse hf

theorem recognizes_ws : Recognizes grammar q n (Scanner.char isSpace) (.call .ws) := by
  refine .call_silent rfl ?_
  have hclass : isSpace =
      fun c ↦ c == ' ' || (c == '\t' || (c == '\n' || (c == '\r' || c == '\x0c'))) := by
    funext c
    simp only [isSpace, Bool.or_assoc]
  rw [hclass]
  exact recognizes_charOr (recognizes_lit _) <| recognizes_charOr (recognizes_lit _) <|
    recognizes_charOr (recognizes_lit _) <| recognizes_charOr (recognizes_lit _) (recognizes_lit _)

theorem recognizes_spaces : Recognizes grammar q n spaces (.star (.call .ws)) := by
  rw [spaces, ← star_char]
  exact recognizes_ws.star (productive_char _)

theorem recognizes_gap : Recognizes grammar q n gap (.call .gap) := by
  refine .call_silent rfl ?_
  rw [gap, ← star_char]
  exact (recognizes_charOr recognizes_ws (recognizes_lit _)).star (productive_char _)

/-- Whether a text starts with a character of a class. -/
def startsIn (p : Char → Bool) (s : Text) : Bool := s.head?.any p

theorem decides_class {p : Char → Bool} {e : Expr RuleName}
    (he : Recognizes grammar q n (Scanner.char p) e) : Decides grammar q n (startsIn p) e := by
  refine he.decides fun s ↦ ?_
  cases s with
  | nil => rfl
  | cons c t => cases h : p c <;> simp [Scanner.char, startsIn, h]

theorem decides_lit (c : Char) : Decides grammar q n (fun s ↦ s.head? == some c) (lit c) :=
  (recognizes_lit c).decides (isSome_char_beq c)

/-- A scanner of the characters where a test fails. -/
theorem recognizes_anyBut {a : Scanner} {test : Text → Bool} {e : Expr RuleName}
    (he : Decides grammar q n test e) (ha : a = Scanner.seq (ahead fun s ↦ !test s) Scanner.any) :
    Recognizes grammar q n a (anyBut e) := by
  rw [ha]
  exact he.not.seq (exact_ahead _) (recognizes_char _)

/-- The characters that are not of a class. -/
theorem recognizes_anyBut_class {p : Char → Bool} {e : Expr RuleName}
    (he : Recognizes grammar q n (Scanner.char p) e) :
    Recognizes grammar q n (Scanner.char fun c ↦ !p c) (anyBut e) := by
  refine recognizes_anyBut (decides_class he) ?_
  funext s
  cases s with
  | nil => rfl
  | cons c t => cases h : p c <;> simp [Scanner.char, Scanner.seq, ahead, startsIn, Scanner.any, h]

/-! ## Comments and strings -/

theorem decides_text (t : Text) : Decides grammar q n (t.isPrefixOf ·) (.text t) := by
  refine (recognizes_text t).decides fun s ↦ ?_
  rw [Bool.eq_iff_iff, Scanner.text, Option.isSome_map, Option.isSome_iff_exists,
    List.isPrefixOf_iff_prefix]
  exact exists_congr fun r ↦ Text.dropStart?_eq_some_iff

/-- A character of a comment: any, where the comment does not end. -/
def commentChar : Scanner :=
  Scanner.seq (ahead fun s ↦ !(['*', '/'].isPrefixOf s)) Scanner.any

theorem productive_commentChar : Productive commentChar :=
  (exact_ahead _).seq_productive (productive_char _)

/-- A comment ends where it ends first. -/
theorem commentTail_eq : commentTail = Scanner.seq (star commentChar) (Scanner.text ['*', '/']) := by
  funext s
  fun_induction commentTail s with
  | case1 => rfl
  | case2 t =>
    rw [star_seq_of_none (by simp [commentChar, Scanner.seq, ahead])]
    simp [Scanner.text, Text.dropStart?]
  | case3 c t hne ih =>
    have hchar : commentChar (c :: t) = some ([c], t) := by
      have hopen : ['*', '/'].isPrefixOf (c :: t) = false := by
        rw [Bool.eq_false_iff, Ne, List.isPrefixOf_iff_prefix]
        rintro ⟨r, hr⟩
        obtain ⟨hc, ht⟩ := List.cons.inj hr
        exact hne r hc.symm ht.symm
      simp [commentChar, Scanner.seq, ahead, Scanner.any, Scanner.char, hopen]
    rw [productive_commentChar.star_seq_of_some hchar, ih]
    rfl

theorem recognizes_comment : Recognizes grammar true n comment (.call .comment) := by
  refine .call_quiet ?_
  have heq : comment = Scanner.seq (Scanner.text ['/', '*'])
      (Scanner.seq (star commentChar) (Scanner.text ['*', '/'])) := by
    rw [← commentTail_eq]
    funext s
    unfold comment
    split
    · rfl
    · rename_i hne
      rw [Scanner.seq, text_eq_none hne]
  rw [heq]
  exact (recognizes_text _).seq (exact_text _) <|
    ((recognizes_anyBut (decides_text _) rfl).star productive_commentChar).seq
      productive_commentChar.1.star (recognizes_text _)

/-- A piece of a string: a character with a backslash in front, or one that is neither the quote nor
a line end. -/
def stringPiece (quote : Char) : Scanner :=
  orElse (Scanner.seq (Scanner.char (· == '\\')) Scanner.any)
    (Scanner.char fun c ↦ !(c == quote || c == '\n'))

theorem productive_stringPiece (quote : Char) : Productive (stringPiece quote) :=
  ((productive_char _).seq (exact_char _)).orElse (productive_char _)

theorem stringTail_eq (quote : Char) :
    stringTail quote = Scanner.seq (star (stringPiece quote)) (Scanner.char (· == quote)) := by
  funext s
  have hescape {c : Char} {t : Text} (hne : ∀ d r, c = '\\' → t = d :: r → False) :
      Scanner.seq (Scanner.char (· == '\\')) Scanner.any (c :: t) = none := by
    by_cases hc : c = '\\'
    · cases t with
      | nil => simp [Scanner.seq, Scanner.char, Scanner.any, hc]
      | cons d r => exact (hne d r hc rfl).elim
    · simp [Scanner.seq, Scanner.char, hc]
  fun_induction stringTail quote s with
  | case1 => rfl
  | case2 c t ih =>
    have hpiece : stringPiece quote ('\\' :: c :: t) = some (['\\', c], t) := rfl
    rw [(productive_stringPiece quote).star_seq_of_some hpiece, ih]
    rfl
  | case3 t hne =>
    have hpiece : stringPiece quote (quote :: t) = none := by
      simp [stringPiece, orElse, hescape hne, Scanner.char]
    rw [star_seq_of_none hpiece]
    simp [Scanner.char]
  | case4 t hne hquote =>
    have hpiece : stringPiece quote ('\n' :: t) = none := by
      simp [stringPiece, orElse, hescape hne, Scanner.char]
    rw [star_seq_of_none hpiece]
    simp [Scanner.char, hquote]
  | case5 c t hne hquote hline ih =>
    have hpiece : stringPiece quote (c :: t) = some ([c], t) := by
      simp [stringPiece, orElse, hescape hne, Scanner.char, hquote, hline]
    rw [(productive_stringPiece quote).star_seq_of_some hpiece, ih]
    rfl

theorem recognizes_string : Recognizes grammar true n string (.call .string) := by
  refine .call_quiet ?_
  have heq : string = orElse (Scanner.seq (Scanner.char (· == '"')) (stringTail '"'))
      (Scanner.seq (Scanner.char (· == '\'')) (stringTail '\'')) := by
    funext s
    cases s with
    | nil => rfl
    | cons c t =>
      by_cases hdouble : c = '"'
      · subst hdouble
        cases ht : stringTail '"' t <;> simp [string, orElse, Scanner.seq, Scanner.char, ht]
      · by_cases hsingle : c = '\'' <;>
          simp [string, orElse, Scanner.seq, Scanner.char, hdouble, hsingle]
  have hquoted (quote : Char) : Recognizes grammar true n
      (Scanner.seq (Scanner.char (· == quote)) (stringTail quote)) (quoted quote) := by
    rw [stringTail_eq]
    refine (recognizes_lit quote).seq (exact_char _) <| Recognizes.seq (.star ?_
      (productive_stringPiece quote)) (productive_stringPiece quote).1.star (recognizes_lit quote)
    exact ((recognizes_lit '\\').seq (exact_char _) (recognizes_char _)).orElse
      (recognizes_anyBut_class (recognizes_charOr (recognizes_lit _) (recognizes_lit _)))
  rw [heq]
  exact (hquoted '"').orElse (hquoted '\'')

/-! ## Groups -/

section Groups

variable {opener closer : Char}

theorem groupTail_of_shielded {d : Nat} {s l r : Text} (h : shielded s = some (l, r)) :
    groupTail opener closer d s = (groupTail opener closer d r).map fun p ↦ (l ++ p.1, p.2) := by
  rw [groupTail.eq_def]
  split
  · rename_i l' r' h'
    obtain ⟨rfl, rfl⟩ := Prod.mk.inj (Option.some.inj (h.symm.trans h'))
    rfl
  · rename_i h'
    cases h.symm.trans h'

theorem groupTail_cons {d : Nat} {c : Char} {t : Text} (h : shielded (c :: t) = none) :
    groupTail opener closer d (c :: t) =
      if c = closer then
        match d with
        | 0 => some ([c], t)
        | d + 1 => (groupTail opener closer d t).map fun p ↦ (c :: p.1, p.2)
      else
        (groupTail opener closer (if c = opener then d + 1 else d) t).map
          fun p ↦ (c :: p.1, p.2) := by
  rw [groupTail.eq_def]
  split
  · rename_i h'
    cases h.symm.trans h'
  · rfl

theorem groupTail_nil (d : Nat) : groupTail opener closer d [] = none := by
  rw [groupTail.eq_def]
  rfl

/-- The end of a group with more groups open in it is found by closing some of them first. -/
theorem groupTail_add (d k : Nat) (s : Text) : groupTail opener closer (d + k + 1) s =
    Scanner.seq (groupTail opener closer d) (groupTail opener closer k) s := by
  fun_induction groupTail opener closer d s with
  | case1 d s l r h ih => rw [groupTail_of_shielded h, ih, seq_of_map (groupTail_of_shielded h)]
  | case2 d h => simp [Scanner.seq, groupTail_nil]
  | case3 t h => simp [Scanner.seq, groupTail_cons h]
  | case4 t d h ih =>
    have hstep (m : Nat) : groupTail opener closer (m + 1) (closer :: t) =
        (groupTail opener closer m t).map fun p ↦ ([closer] ++ p.1, p.2) := by
      rw [groupTail_cons h, if_pos rfl]
      rfl
    rw [show d + 1 + k + 1 = d + k + 1 + 1 by omega, hstep, ih, seq_of_map (hstep d)]
  | case5 d c t h hc ih =>
    have hstep (m : Nat) : groupTail opener closer m (c :: t) =
        (groupTail opener closer (if c = opener then m + 1 else m) t).map
          fun p ↦ ([c] ++ p.1, p.2) := by
      rw [groupTail_cons h, if_neg hc]
      rfl
    have hdepth : (if c = opener then d + k + 1 + 1 else d + k + 1) =
        (if c = opener then d + 1 else d) + k + 1 := by
      split <;> omega
    rw [dite_eq_ite] at ih
    rw [hstep, hdepth, ih, seq_of_map (hstep d)]

/-- A piece of a group: a comment, a string, a group of the same kind, or any character that does
not close the group. -/
def groupPiece (opener closer : Char) : Scanner :=
  orElse shielded (orElse (group opener closer) (Scanner.char fun c ↦ !(c == closer)))

theorem productive_groupPiece : Productive (groupPiece opener closer) :=
  productive_shielded.orElse ((productive_group _ _).orElse (productive_char _))

/-- Behind a piece of a group, the end of the group is sought as before. If the piece is an opening
character on its own, the group is never closed and neither is the one that starts there. -/
theorem groupTail_of_groupPiece {s l r : Text} (hne : opener ≠ closer)
    (h : groupPiece opener closer s = some (l, r)) : groupTail opener closer 0 s =
      (groupTail opener closer 0 r).map fun p ↦ (l ++ p.1, p.2) := by
  cases hshielded : shielded s with
  | some p =>
    simp only [groupPiece, orElse, hshielded, Option.some.injEq] at h
    rw [h] at hshielded
    exact groupTail_of_shielded hshielded
  | none =>
    cases s with
    | nil => simp [groupPiece, orElse, hshielded, group, Scanner.char] at h
    | cons c t =>
      by_cases hopen : c = opener
      · subst hopen
        have hnested : groupTail c closer (0 + 1) t =
            Scanner.seq (groupTail c closer 0) (groupTail c closer 0) t := groupTail_add 0 0 t
        rw [groupTail_cons hshielded, if_neg hne, if_pos rfl, hnested]
        cases ht : groupTail c closer 0 t with
        | some p =>
          have hpiece : groupPiece c closer (c :: t) = some (c :: p.1, p.2) := by
            simp [groupPiece, orElse, hshielded, group, ht]
          obtain ⟨rfl, rfl⟩ := Prod.mk.inj (Option.some.inj (hpiece.symm.trans h))
          simp [Scanner.seq, ht, Function.comp_def]
        | none =>
          have hpiece : groupPiece c closer (c :: t) = some ([c], t) := by
            simp [groupPiece, orElse, hshielded, group, ht, Scanner.char, hne]
          obtain ⟨rfl, rfl⟩ := Prod.mk.inj (Option.some.inj (hpiece.symm.trans h))
          simp [Scanner.seq, ht]
      · simp only [groupPiece, orElse, hshielded, group, if_neg hopen, Scanner.char,
          Bool.not_eq_true', beq_eq_false_iff_ne, Option.ite_none_right_eq_some, Option.some.injEq,
          Prod.mk.injEq] at h
        obtain ⟨hclose, rfl, rfl⟩ := h
        rw [groupTail_cons hshielded, if_neg hclose, if_neg hopen]
        rfl

/-- Where no piece of a group can be read, the group ends or the text does. -/
theorem groupTail_of_groupPiece_eq_none {s : Text} (h : groupPiece opener closer s = none) :
    groupTail opener closer 0 s = Scanner.char (· == closer) s := by
  obtain ⟨hshielded, h⟩ := orElse_eq_none h
  obtain ⟨-, hchar⟩ := orElse_eq_none h
  cases s with
  | nil => exact groupTail_nil 0
  | cons c t =>
    obtain rfl : c = closer := by simpa [Scanner.char] using hchar
    rw [groupTail_cons hshielded, if_pos rfl]
    simp [Scanner.char]

/-- A group ends at the first character that closes it and stands in no piece of it. -/
theorem groupTail_eq (hne : opener ≠ closer) : groupTail opener closer 0 =
    Scanner.seq (star (groupPiece opener closer)) (Scanner.char (· == closer)) := by
  funext s
  induction hk : s.length using Nat.strongRecOn generalizing s with
  | ind k ih =>
    cases hpiece : groupPiece opener closer s with
    | none => rw [groupTail_of_groupPiece_eq_none hpiece, star_seq_of_none hpiece]
    | some p =>
      have hlt := productive_groupPiece.length_lt hpiece
      rw [groupTail_of_groupPiece hne hpiece, ih p.2.length (by omega) p.2 rfl,
        productive_groupPiece.star_seq_of_some hpiece]

/-- The rule of a group, of which the same rule is a piece, matches groups in texts of any length. -/
theorem recognizes_grouped (hne : opener ≠ closer) {name : RuleName}
    (hrule : name.expr = grouped opener closer name) :
    Recognizes grammar true n (group opener closer) (.call name) := by
  have heq : group opener closer = Scanner.seq (Scanner.char (· == opener))
      (Scanner.seq (star (groupPiece opener closer)) (Scanner.char (· == closer))) := by
    rw [← groupTail_eq hne]
    funext s
    cases s with
    | nil => rfl
    | cons c t => by_cases hc : c = opener <;> simp [group, Scanner.seq, Scanner.char, hc]
  have hcall {m : Nat} (h : Recognizes grammar true m (group opener closer)
      (grouped opener closer name)) : Recognizes grammar true m (group opener closer) (.call name) :=
    .call_quiet (by rwa [← hrule] at h)
  refine hcall ?_
  induction n with
  | zero =>
    rintro ⟨rest, offset⟩ hc
    obtain rfl := List.length_eq_zero_iff.1 (Nat.le_zero.1 hc)
    exact .seq_fails_first (recognizes_lit opener ⟨[], offset⟩ (Nat.le_refl 0))
  | succ n ih =>
    have hpiece := recognizes_comment.orElse <| recognizes_string.orElse <|
      (hcall ih).orElse (recognizes_anyBut_class (recognizes_lit closer))
    rw [← orElse_assoc] at hpiece
    rw [heq]
    exact (recognizes_lit opener).seq_succ (productive_char _) <|
      (hpiece.star productive_groupPiece).seq productive_groupPiece.1.star (recognizes_lit closer)

end Groups

/-- Comments, strings and groups come first wherever they may stand. -/
theorem recognizes_closed_orElse {a : Scanner} {e : Expr RuleName}
    (ha : Recognizes grammar true n a e) :
    Recognizes grammar true n (orElse closed a) (.firstOf [.call .comment, .call .string,
      .call .parenGroup, .call .bracketGroup, e]) := by
  rw [closed, shielded, orElse_assoc, orElse_assoc, orElse_assoc]
  exact recognizes_comment.orElse <| recognizes_string.orElse <|
    (recognizes_grouped (by decide) rfl).orElse <|
      (recognizes_grouped (by decide) rfl).orElse ha

/-! ## Preludes and properties -/

theorem decides_opensComment : Decides grammar q n opensComment (.text ['/', '*']) := by
  refine (recognizes_text _).decides fun s ↦ ?_
  unfold opensComment
  split
  · rfl
  · rename_i hne
    rw [text_eq_none hne]
    rfl

/-- A single character of a class that opens no comment. -/
theorem recognizes_unlessComment {p : Char → Bool} {test : Text → Bool} {e : Expr RuleName}
    (he : Decides grammar q n test e)
    (htest : ∀ c t, test (c :: t) = (opensComment (c :: t) || !p c)) (hnil : test [] = false) :
    Recognizes grammar q n (fun s ↦ if opensComment s then none else Scanner.char p s)
      (anyBut e) := by
  refine recognizes_anyBut he ?_
  funext s
  cases s with
  | nil => simp [opensComment, Scanner.seq, ahead, Scanner.any, Scanner.char, hnil]
  | cons c t =>
    simp only [Scanner.seq, ahead, Scanner.any, Scanner.char, htest]
    cases opensComment (c :: t) <;> cases p c <;> rfl

theorem recognizes_plain : Recognizes grammar q n plain (anyBut (.firstOf [.call .ws, lit '{',
    lit '}', lit ';', .text ['/', '*'], lit '"', lit '\'', lit '(', lit '['])) := by
  refine recognizes_unlessComment ((decides_class recognizes_ws).choice <| (decides_lit _).choice <|
    (decides_lit _).choice <| (decides_lit _).choice <| decides_opensComment.choice <|
    (decides_lit _).choice <| (decides_lit _).choice <| (decides_lit _).choice (decides_lit _))
    (fun c t ↦ ?_) rfl
  rw [Bool.eq_iff_iff]
  simp only [startsIn, List.head?_cons, Option.any_some, Option.some_beq_some, Bool.or_eq_true,
    Bool.not_not, beq_iff_eq, decide_eq_true_eq, List.mem_cons, List.not_mem_nil, or_false]
  grind

theorem recognizes_atom : Recognizes grammar true n atom (.call .preludeAtom) :=
  .call_quiet (recognizes_closed_orElse recognizes_plain)

theorem recognizes_prelude : Recognizes grammar true n prelude (.call .prelude) :=
  .call_quiet <| recognizes_atom.seq productive_atom.1 <|
    (recognizes_spaces.seq exact_spaces recognizes_atom).star
      (exact_spaces.seq_productive productive_atom)

theorem recognizes_propertyChar : Recognizes grammar q n propertyChar (.call .propChar) := by
  refine .call_silent rfl <| recognizes_unlessComment ((decides_class recognizes_ws).choice <|
    (decides_lit _).choice <| (decides_lit _).choice <| (decides_lit _).choice <|
    (decides_lit _).choice decides_opensComment) (fun c t ↦ ?_) rfl
  rw [Bool.eq_iff_iff]
  simp only [startsIn, List.head?_cons, Option.any_some, Option.some_beq_some, Bool.or_eq_true,
    Bool.not_not, beq_iff_eq, decide_eq_true_eq, List.mem_cons, List.not_mem_nil, or_false]
  grind

theorem recognizes_property : Recognizes grammar true n property (expr .prop) :=
  (recognizes_comment.orElse recognizes_propertyChar).plus
    (productive_comment.orElse (productive_unlessComment _))

theorem recognizes_colon : Recognizes grammar true n colon (expr .declBetween) :=
  recognizes_spaces.seq exact_spaces <|
    (recognizes_lit ':').seq (exact_char _) recognizes_spaces

theorem recognizes_trailing : Recognizes grammar true n trailing (expr .valueTrailing) := by
  rw [trailing, followedBy_eq_seq]
  exact (recognizes_ws.plus (productive_char _)).seq (productive_char _).many1.1
    (decides_lit ';').and

theorem recognizes_atName : Recognizes grammar true n atName (expr .atName) := by
  have hclass : (fun c ↦ c == '-' || c == '_' || c.isAlphanum) =
      fun c : Char ↦ c == '-' || (c == '_' || c.isAlphanum) := by
    funext c
    rw [Bool.or_assoc]
  rw [atName, hclass]
  exact (recognizes_charOr (recognizes_lit _) <|
    recognizes_charOr (recognizes_lit _) (recognizes_char _)).plus (productive_char _)

/-! ## Comments that stand for themselves -/

theorem recognizes_tailAtom : Recognizes grammar true n tailAtom (.call .lookaheadAtom) := by
  have hclass : (fun c ↦ !(decide (c ∈ ['{', '}', ';']))) =
      fun c : Char ↦ !(c == '{' || (c == '}' || c == ';')) := by
    funext c
    simp [Bool.beq_eq_decide_eq]
  rw [tailAtom, hclass]
  exact .call_quiet <| recognizes_closed_orElse <| recognizes_anyBut_class <|
    recognizes_charOr (recognizes_lit _) <| recognizes_charOr (recognizes_lit _) (recognizes_lit _)

theorem productive_tailAtom : Productive tailAtom := productive_closed.orElse (productive_char _)

theorem decides_propertyTail : Decides grammar true n isPropertyTail (.call .propertyTail) := by
  refine Recognizes.decides (.call_quiet <| recognizes_spaces.seq exact_spaces <|
    (recognizes_lit ':').seq (exact_char _) <|
      (recognizes_tailAtom.star productive_tailAtom).seq productive_tailAtom.1.star
        (decides_lit '{').not) fun s ↦ ?_
  simp only [isSome_seq, spaces, run, Option.any_some, isPropertyTail]
  cases s.dropWhile isSpace with
  | nil => rfl
  | cons c t =>
    by_cases hc : c = ':'
    · subst hc
      simp only [Scanner.char, beq_self_eq_true, if_true, Option.any_some, Scanner.star,
        isSome_ahead]
      rfl
    · simp [Scanner.char, hc]

theorem decides_blockTail : Decides grammar true n (fun s ↦ opensBlock (s.dropWhile isSpace))
    (.inOrder [.star (.call .ws), lit '{']) := by
  refine (recognizes_spaces.seq exact_spaces (recognizes_lit '{')).decides fun s ↦ ?_
  rw [isSome_seq, spaces, run, Option.any_some, isSome_char_beq, opensBlock]

theorem decides_selectorTail : Decides grammar true n isSelectorTail (.call .selectorTail) := by
  refine Recognizes.decides (.call_quiet <|
    ((decides_class recognizes_ws).choice <| (decides_lit _).choice <| (decides_lit _).choice
      (decides_lit _)).not.seq (exact_ahead _) <|
      (recognizes_tailAtom.star productive_tailAtom).seq productive_tailAtom.1.star
        (recognizes_lit '{')) fun s ↦ ?_
  cases s with
  | nil => rfl
  | cons c t =>
    simp only [isSome_seq, any_ahead, Scanner.star, Option.any_some, isSome_char_beq,
      isSelectorTail, startsIn, List.head?_cons, Option.some_beq_some, opensBlock, decider]
    congr 2
    simp [Bool.beq_eq_decide_eq]

/-- A comment stands for itself where its rule says so. -/
theorem recognizes_loneComment : Recognizes grammar true n loneComment (expr .commentNode) := by
  rw [loneComment, followedBy_eq_seq]
  refine recognizes_comment.seq productive_comment.1 (Decides.not ?_)
  simp only [Bool.or_assoc]
  exact .call (decides_propertyTail.choice (decides_blockTail.choice decides_selectorTail))

end EmbeddedCss.Css.Lexeme
