import EmbeddedCss.Parser.Scanner
import EmbeddedCss.Text.Blank

/-! # Lexemes of a stylesheet

The scanners for the pieces of text that a stylesheet is read in: white space, comments, strings,
groups in parentheses or brackets, and the longer stretches made of them. A comment, string or group
that is never closed is not one; where the characters that open it may stand alone, they do. -/

namespace EmbeddedCss.Css.Lexeme

open Scanner
open Text (isSpace)

/-- A run of white space, perhaps empty. -/
def spaces : Scanner := run isSpace

/-- What follows the opening of a comment, up to and with what closes it. -/
def commentTail : Scanner
  | [] => none
  | '*' :: '/' :: t => some (['*', '/'], t)
  | c :: t => (commentTail t).map fun p ↦ (c :: p.1, p.2)

/-- A closed comment. -/
def comment : Scanner
  | '/' :: '*' :: t => (commentTail t).map fun p ↦ ('/' :: '*' :: p.1, p.2)
  | _ => none

/-- What follows the opening quote of a string, up to and with the quote that closes it. A backslash
hides the character after it, a line end among them; a bare line end leaves the string open. -/
def stringTail (quote : Char) : Scanner
  | [] => none
  | '\\' :: c :: t => (stringTail quote t).map fun p ↦ ('\\' :: c :: p.1, p.2)
  | c :: t =>
    if c = quote then some ([c], t)
    else if c = '\n' then none
    else (stringTail quote t).map fun p ↦ (c :: p.1, p.2)

/-- A closed string. -/
def string : Scanner
  | [] => none
  | c :: t =>
    if c = '"' ∨ c = '\'' then (stringTail c t).map fun p ↦ (c :: p.1, p.2) else none

/-- A comment or a string: what hides every other character. -/
def shielded : Scanner := orElse comment string

/-- A character that closes no comment is passed over. -/
theorem commentTail_cons {c : Char} {t : Text} (h : ∀ u, c = '*' → t ≠ '/' :: u) :
    commentTail (c :: t) = (commentTail t).map fun p ↦ (c :: p.1, p.2) := by
  rw [commentTail]
  intro u hc ht
  exact h u hc ht

/-- A text without stars is passed over. -/
theorem commentTail_append_of_notMem {x : Text} (hx : '*' ∉ x) (s : Text) :
    commentTail (x ++ s) = (commentTail s).map fun p ↦ (x ++ p.1, p.2) := by
  induction x with
  | nil => simp
  | cons c x ih =>
    rw [List.mem_cons, not_or] at hx
    rw [List.cons_append, commentTail_cons, ih hx.2, Option.map_map]
    · rfl
    · rintro u rfl -
      exact hx.1 rfl

theorem exact_commentTail : Exact commentTail := by
  intro s
  fun_induction commentTail s with
  | case1 => simp
  | case2 t => rintro l r ⟨⟩; rfl
  | case3 c t _ ih =>
    intro l r h
    simp only [Option.map_eq_some_iff, Prod.mk.injEq, Prod.exists] at h
    obtain ⟨l', _, h, rfl, rfl⟩ := h
    simp [ih h]

/-- A scanner is productive if all that it reads is an opening and what an exact scanner reads
behind it. -/
theorem productive_of_opening {a : Scanner} (h : ∀ {s l r}, a s = some (l, r) →
    ∃ opening tail t, opening ≠ [] ∧ Exact tail ∧ s = opening ++ t ∧
      (tail t).map (fun p ↦ (opening ++ p.1, p.2)) = some (l, r)) : Productive a := by
  have key : ∀ {s l r}, a s = some (l, r) → l ++ r = s ∧ l ≠ [] := by
    intro s l r hs
    obtain ⟨opening, tail, t, hne, htail, rfl, hl⟩ := h hs
    obtain ⟨⟨l', r'⟩, ht, he⟩ := Option.map_eq_some_iff.1 hl
    obtain ⟨rfl, rfl⟩ := Prod.mk.inj he
    exact ⟨by rw [List.append_assoc, htail ht], by simp [hne]⟩
  exact ⟨fun _ _ _ h ↦ (key h).1, fun _ _ _ h ↦ (key h).2⟩

theorem productive_comment : Productive comment := by
  refine productive_of_opening fun {s l r} h ↦ ?_
  unfold comment at h
  split at h
  · exact ⟨['/', '*'], commentTail, _, by simp, exact_commentTail, rfl, h⟩
  · cases h

theorem exact_stringTail (quote : Char) : Exact (stringTail quote) := by
  intro s
  fun_induction stringTail quote s with
  | case1 => simp
  | case2 c t ih =>
    intro l r h
    simp only [Option.map_eq_some_iff, Prod.mk.injEq, Prod.exists] at h
    obtain ⟨l', _, h, rfl, rfl⟩ := h
    simp [ih h]
  | case3 t => rintro l r ⟨⟩; rfl
  | case4 => simp
  | case5 c t _ _ _ ih =>
    intro l r h
    simp only [Option.map_eq_some_iff, Prod.mk.injEq, Prod.exists] at h
    obtain ⟨l', _, h, rfl, rfl⟩ := h
    simp [ih h]

theorem productive_string : Productive string := by
  refine productive_of_opening fun {s l r} h ↦ ?_
  unfold string at h
  split at h
  · cases h
  · rename_i c t
    split at h
    · exact ⟨[c], stringTail c, t, by simp, exact_stringTail c, rfl, h⟩
    · cases h

theorem productive_shielded : Productive shielded := productive_comment.orElse productive_string

/-- What follows the opening character of a group with `depth` groups of its kind open inside it, up
to and with the character that closes it. -/
def groupTail (opener closer : Char) (depth : Nat) (s : Text) : Option (Text × Text) :=
  match h : shielded s with
  | some (l, r) => (groupTail opener closer depth r).map fun p ↦ (l ++ p.1, p.2)
  | none =>
    match s with
    | [] => none
    | c :: t =>
      if c = closer then
        match depth with
        | 0 => some ([c], t)
        | d + 1 => (groupTail opener closer d t).map fun p ↦ (c :: p.1, p.2)
      else
        (groupTail opener closer (if c = opener then depth + 1 else depth) t).map
          fun p ↦ (c :: p.1, p.2)
termination_by s.length
decreasing_by
  · exact productive_shielded.length_lt h
  all_goals simp

/-- A closed group. Groups of the same kind nest in it; those of another kind do not count. -/
def group (opener closer : Char) : Scanner
  | [] => none
  | c :: t =>
    if c = opener then (groupTail opener closer 0 t).map fun p ↦ (c :: p.1, p.2) else none

/-- A comment, a string, or a group of either kind. -/
def closed : Scanner := orElse shielded (orElse (group '(' ')') (group '[' ']'))

/-- Whether a text starts with the opening of a comment. -/
def opensComment : Text → Bool
  | '/' :: '*' :: _ => true
  | _ => false

/-- A single character that takes part in selectors, parameters and values as it is. -/
def plain : Scanner := fun s ↦
  if opensComment s then none
  else Scanner.char (fun c ↦ !(isSpace c || c ∈ ['{', '}', ';', '"', '\'', '(', '['])) s

/-- A piece of a selector, of parameters, or of a value. -/
def atom : Scanner := orElse closed plain

/-- A selector, the parameters of an at-rule, or a value: atoms with white space between them. -/
def prelude : Scanner := seq atom fun s ↦ some (many (seq spaces atom) s)

/-- A single character of the name of a property. -/
def propertyChar : Scanner := fun s ↦
  if opensComment s then none
  else Scanner.char (fun c ↦ !(isSpace c || c ∈ [':', ';', '{', '}'])) s

/-- The name of a property. Comments may take part in it. -/
def property : Scanner := many1 (orElse comment propertyChar)

/-- The colon of a declaration with the white space around it. -/
def colon : Scanner := seq spaces (seq (Scanner.char (· == ':')) spaces)

/-- White space between a value and the semicolon after it. -/
def trailing : Scanner := followedBy (many1 (Scanner.char isSpace)) fun r ↦ r.head? == some ';'

/-- The name of an at-rule. -/
def atName : Scanner := many1 (Scanner.char fun c ↦ c == '-' || c == '_' || c.isAlphanum)

/-- White space and semicolons between the items of a body. -/
def gap : Scanner := run fun c ↦ isSpace c || c == ';'

/-! ## Comments that stand for themselves

A comment belongs to what follows it if that is the rest of a declaration (`/*c*/: v` up to a
semicolon, a closing brace or the end), a block (`/*c*/ {`), or a selector that is written right
against it (`/*c*/:hover {`). Otherwise it is an item of its own. -/

/-- What may stand between a comment and the brace, semicolon or end that decides about it. -/
def tailAtom : Scanner :=
  orElse closed (Scanner.char fun c ↦ !(c ∈ ['{', '}', ';']))

/-- What is left of a text from its first brace or semicolon outside of comments, strings and
groups. -/
def decider (s : Text) : Text := (many tailAtom s).2

/-- Whether a text starts with an opening brace. -/
def opensBlock (s : Text) : Bool := s.head? == some '{'

/-- Whether a text goes on as the rest of a declaration. -/
def isPropertyTail (s : Text) : Bool :=
  match s.dropWhile isSpace with
  | ':' :: t => !opensBlock (decider t)
  | _ => false

/-- Whether a text goes on as a selector without a gap. -/
def isSelectorTail : Text → Bool
  | [] => false
  | c :: t => !(isSpace c || c ∈ [';', '}', '{']) && opensBlock (decider (c :: t))

/-- A closed comment that belongs to nothing. -/
def loneComment : Scanner := followedBy comment fun r ↦
  !(isPropertyTail r || opensBlock (r.dropWhile isSpace) || isSelectorTail r)

end EmbeddedCss.Css.Lexeme
