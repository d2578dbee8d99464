import EmbeddedCss.Proofs.Css.Alignment
import EmbeddedCss.Proofs.Peg.Recognition
import Mathlib.Data.List.DropRight

/-! # Words

Plain contents of a stylesheet: words of letters, digits and a few signs, joined by single spaces.
None of their characters means anything to a lexeme, so that each lexeme takes such words as a whole
and stops where they stop. -/

namespace EmbeddedCss

/-! ## Words joined by spaces -/

namespace Text

/-- A word of characters of a class. -/
def IsWord (p : Char → Bool) (w : Text) : Prop := w ≠ [] ∧ ∀ c ∈ w, p c = true

instance (p : Char → Bool) (w : Text) : Decidable (IsWord p w) :=
  decidable_of_iff (w ≠ [] ∧ w.all p = true) (and_congr_right fun _ ↦ List.all_eq_true)

/-- One or more words: a first one, and others with a single space in front of each. -/
def IsWords (p : Char → Bool) (t : Text) : Prop :=
  ∃ w ws, (∀ v ∈ w :: ws, IsWord p v) ∧ t = w ++ ws.flatMap fun v ↦ ' ' :: v

variable {p p' : Char → Bool} {w t : Text}

theorem IsWord.isWords (h : IsWord p w) : IsWords p w := ⟨w, [], by simpa using h, by simp⟩

/-- A word in front of other words. -/
theorem IsWord.cons (hw : IsWord p w) (ht : IsWords p t) : IsWords p (w ++ ' ' :: t) := by
  obtain ⟨v, vs, hvs, rfl⟩ := ht
  exact ⟨w, v :: vs, List.forall_mem_cons.2 ⟨hw, hvs⟩, by simp⟩

/-- A word behind other words. -/
theorem IsWords.concat (ht : IsWords p t) (hw : IsWord p w) : IsWords p (t ++ ' ' :: w) := by
  obtain ⟨v, vs, hvs, rfl⟩ := ht
  refine ⟨v, vs ++ [w], ?_, by simp⟩
  rw [← List.cons_append]
  exact List.forall_mem_append.2 ⟨hvs, by simpa using hw⟩

theorem IsWord.mono (h : IsWord p w) (hp : ∀ c, p c = true → p' c = true) : IsWord p' w :=
  ⟨h.1, fun c hc ↦ hp c (h.2 c hc)⟩

theorem IsWords.mono (h : IsWords p t) (hp : ∀ c, p c = true → p' c = true) : IsWords p' t := by
  obtain ⟨w, ws, hws, rfl⟩ := h
  exact ⟨w, ws, fun v hv ↦ (hws v hv).mono hp, rfl⟩

/-- Words start with a character of the class. -/
theorem IsWords.exists_cons (h : IsWords p t) : ∃ c u, t = c :: u ∧ p c = true := by
  obtain ⟨w, ws, hws, rfl⟩ := h
  obtain ⟨hne, hw⟩ := hws w (List.mem_cons_self ..)
  obtain ⟨c, u, rfl⟩ := List.exists_cons_of_ne_nil hne
  exact ⟨c, _, rfl, hw c (List.mem_cons_self ..)⟩

/-- Words end with a character of the class. -/
theorem IsWords.exists_concat (h : IsWords p t) : ∃ u c, t = u ++ [c] ∧ p c = true := by
  obtain ⟨w, ws, hws, rfl⟩ := h
  have key {v : Text} (hv : IsWord p v) (u : Text) : ∃ u' c, u ++ v = u' ++ [c] ∧ p c = true := by
    obtain ⟨v', c, rfl⟩ := List.eq_nil_or_concat v |>.resolve_left hv.1
    exact ⟨u ++ v', c, by simp, hv.2 c (by simp)⟩
  rcases List.eq_nil_or_concat ws with rfl | ⟨ws, v, rfl⟩
  · simpa using key (hws w (List.mem_cons_self ..)) []
  · simpa using key (hws v (by simp)) (w ++ ws.flatMap (fun v ↦ ' ' :: v) ++ [' '])

/-- Words have no other characters than those of the class and spaces. -/
theorem IsWords.mem (h : IsWords p t) {c : Char} (hc : c ∈ t) : p c = true ∨ c = ' ' := by
  obtain ⟨w, ws, hws, rfl⟩ := h
  rcases List.mem_append.1 hc with hc | hc
  · exact .inl ((hws w (List.mem_cons_self ..)).2 c hc)
  · obtain ⟨v, hv, hc⟩ := List.mem_flatMap.1 hc
    rcases List.mem_cons.1 hc with rfl | hc
    · exact .inr rfl
    · exact .inl ((hws v (List.mem_cons_of_mem _ hv)).2 c hc)

/-! ## Padding -/

/-- Nothing is taken from the end of a text whose last character is not blank. -/
theorem trimEnd_concat {u : Text} {c : Char} (hc : isBlank c = false) :
    trimEnd (u ++ [c]) = u ++ [c] := by
  simp [trimEnd, hc]

/-- Blanks at the end are taken away. -/
theorem trimEnd_append_space (u : Text) : trimEnd (u ++ [' ']) = trimEnd u := by
  simp [trimEnd, show isBlank ' ' = true from rfl]

theorem trimStart_cons {u : Text} {c : Char} (hc : isBlank c = false) :
    trimStart (c :: u) = c :: u := by
  simp [trimStart, hc]

theorem trimStart_space (u : Text) : trimStart (' ' :: u) = trimStart u := by
  simp [trimStart, show isBlank ' ' = true from rfl]

variable (hp : ∀ c, p c = true → isBlank c = false)

include hp

theorem IsWords.trimEnd_eq (h : IsWords p t) : trimEnd t = t := by
  obtain ⟨u, c, rfl, hc⟩ := h.exists_concat
  exact trimEnd_concat (hp c hc)

/-- The core of words between two spaces is the words. -/
theorem IsWords.core_padded (h : IsWords p t) : (padded (' ' :: (t ++ [' ']))).core = t := by
  have hstart : trimStart (' ' :: (t ++ [' '])) = t ++ [' '] := by
    obtain ⟨c, u, rfl, hc⟩ := h.exists_cons
    rw [trimStart_space, List.cons_append, trimStart_cons (hp c hc)]
  change trimEnd (trimStart (' ' :: (t ++ [' ']))) = t
  rw [hstart, trimEnd_append_space, h.trimEnd_eq hp]

end Text

/-! ## Lexemes of words -/

namespace Css.Lexeme

open Scanner
open Text (isSpace IsWord IsWords)

/-- A run stops in front of a character that is not of the class. -/
theorem run_append {p : Char → Bool} {l r : Text} (hl : ∀ c ∈ l, p c = true)
    (hr : ∀ c ∈ r.head?, p c = false) : run p (l ++ r) = some (l, r) := by
  have htake : r.takeWhile p = [] ∧ r.dropWhile p = r := by
    cases r with
    | nil => exact ⟨rfl, rfl⟩
    | cons c r => simp [hr c rfl]
  rw [run, List.takeWhile_append_of_pos hl, List.dropWhile_append_of_pos hl, htake.1, htake.2,
    List.append_nil]

/-- A character that is one piece of a selector, of parameters or of a value by itself, whatever
comes after it. -/
def isInert (c : Char) : Bool := !(isSpace c || c ∈ ['{', '}', ';', '"', '\'', '(', '[', '/'])

/-- Comments, strings and groups start with a slash, a quote or an opening character. -/
theorem closed_eq_none {c : Char} (hc : c ∉ ['/', '"', '\'', '(', '[']) (t : Text) :
    closed (c :: t) = none := by
  simp only [List.mem_cons, List.not_mem_nil, or_false, not_or] at hc
  simp [closed, shielded, orElse, comment, string, group, hc]

theorem opensComment_eq_false {c : Char} (hc : c ≠ '/') (t : Text) :
    opensComment (c :: t) = false := by
  simp [opensComment, hc]

theorem atom_of_isInert {c : Char} (hc : isInert c = true) (t : Text) :
    atom (c :: t) = some ([c], t) := by
  simp only [isInert, Bool.not_eq_true', Bool.or_eq_false_iff, decide_eq_false_iff_not,
    List.mem_cons, List.not_mem_nil, or_false, not_or] at hc
  have hclosed : closed (c :: t) = none := closed_eq_none (by simp [hc]) t
  have hslash : opensComment (c :: t) = false := opensComment_eq_false (by simp [hc]) t
  simp [atom, orElse, hclosed, plain, hslash, Scanner.char, hc]

theorem atom_nil : atom [] = none := by
  simp [atom, orElse, closed, shielded, comment, string, group, plain, opensComment, Scanner.char]

/-- No piece starts with a brace or a semicolon. -/
theorem atom_eq_none {c : Char} (hc : c ∈ ['{', '}', ';']) (t : Text) : atom (c :: t) = none := by
  have hne : c ∉ ['/', '"', '\'', '(', '['] := by
    rintro h
    simp only [List.mem_cons, List.not_mem_nil, or_false] at hc h
    rcases hc with rfl | rfl | rfl <;> simp at h
  have hclosed : closed (c :: t) = none := closed_eq_none hne t
  have hslash : opensComment (c :: t) = false :=
    opensComment_eq_false (fun h ↦ hne (by simp [h])) t
  simp only [List.mem_cons, List.not_mem_nil, or_false] at hc
  rcases hc with rfl | rfl | rfl <;> simp [atom, orElse, hclosed, plain, hslash, Scanner.char]

/-- A text has no piece of a selector, of parameters or of a value behind its leading white
space. -/
def Stops (r : Text) : Prop := atom (r.dropWhile isSpace) = none

theorem stops_iff (r : Text) : Stops r ↔ seq spaces atom r = none := by
  simp [Stops, seq, spaces, run]

theorem productive_step : Productive (seq spaces atom) :=
  exact_spaces.seq_productive productive_atom

theorem step_of_isInert {c : Char} (hc : isInert c = true) (t : Text) :
    seq spaces atom (c :: t) = some ([c], t) := by
  have hspace : isSpace c = false := by
    simp only [isInert, Bool.not_eq_true', Bool.or_eq_false_iff] at hc
    exact hc.1
  simp [seq, spaces, run, hspace, atom_of_isInert hc]

theorem step_space {c : Char} (hc : isInert c = true) (t : Text) :
    seq spaces atom (' ' :: c :: t) = some ([' ', c], t) := by
  have hspace : isSpace c = false := by
    simp only [isInert, Bool.not_eq_true', Bool.or_eq_false_iff] at hc
    exact hc.1
  simp [seq, spaces, run, hspace, show isSpace ' ' = true from rfl, atom_of_isInert hc]

/-- A repetition takes characters one by one if its scanner does. -/
theorem many_word {a : Scanner} (ha : a.Productive) {p : Char → Bool}
    (hp : ∀ c t, p c = true → a (c :: t) = some ([c], t)) {w : Text} (hw : ∀ c ∈ w, p c = true)
    {t l r : Text} (ht : many a t = (l, r)) : many a (w ++ t) = (w ++ l, r) := by
  induction w with
  | nil => exact ht
  | cons c w ih =>
    obtain ⟨hc, hw⟩ := List.forall_mem_cons.1 hw
    rw [List.cons_append, ha.many_of_some (hp c _ hc), ih hw]
    rfl

/-- A word is taken as a whole in front of what is refused. -/
theorem many1_word {a : Scanner} (ha : a.Productive) {p : Char → Bool}
    (hp : ∀ c t, p c = true → a (c :: t) = some ([c], t)) {w r : Text} (hw : IsWord p w)
    (hr : a r = none) : many1 a (w ++ r) = some (w, r) := by
  obtain ⟨hne, hw⟩ := hw
  obtain ⟨c, w, rfl⟩ := List.exists_cons_of_ne_nil hne
  obtain ⟨hc, hw⟩ := List.forall_mem_cons.1 hw
  refine seq_eq_some_iff.2 ⟨[c], w ++ r, w, hp c _ hc, ?_, rfl⟩
  rw [many_word ha hp hw (many_of_none hr), List.append_nil]

/-- The words after the first are taken with the spaces in front of them. -/
theorem many_words {ws : List Text} (hws : ∀ w ∈ ws, IsWord isInert w) {r : Text} (hr : Stops r) :
    many (seq spaces atom) (ws.flatMap (fun w ↦ ' ' :: w) ++ r) =
      (ws.flatMap fun w ↦ ' ' :: w, r) := by
  induction ws with
  | nil => exact many_of_none ((stops_iff r).1 hr)
  | cons w ws ih =>
    obtain ⟨⟨hne, hw⟩, hlater⟩ := List.forall_mem_cons.1 hws
    obtain ⟨c, w, rfl⟩ := List.exists_cons_of_ne_nil hne
    obtain ⟨hc, hw⟩ := List.forall_mem_cons.1 hw
    rw [List.flatMap_cons, List.append_assoc, List.cons_append, List.cons_append,
      productive_step.many_of_some (step_space hc _),
      many_word productive_step (fun _ t hc ↦ step_of_isInert hc t) hw (ih hlater)]
    simp

/-- Words are taken as a whole where they stop. -/
theorem prelude_words {t r : Text} (ht : IsWords isInert t) (hr : Stops r) :
    prelude (t ++ r) = some (t, r) := by
  obtain ⟨w, ws, hws, rfl⟩ := ht
  obtain ⟨⟨hne, hw⟩, hlater⟩ := List.forall_mem_cons.1 hws
  obtain ⟨c, w, rfl⟩ := List.exists_cons_of_ne_nil hne
  obtain ⟨hc, hw⟩ := List.forall_mem_cons.1 hw
  refine seq_eq_some_iff.2 ⟨[c], w ++ (ws.flatMap (fun v ↦ ' ' :: v) ++ r), _, ?_,
    congrArg some (many_word productive_step (fun _ t hc ↦ step_of_isInert hc t) hw
      (many_words hlater hr)), rfl⟩
  rw [List.cons_append, List.cons_append, List.append_assoc]
  exact atom_of_isInert hc _

/-! ## Where words stop -/

/-- Words stop at white space in front of a brace or a semicolon. -/
theorem stops_of_head? {r : Text} (h : ∀ c ∈ (r.dropWhile isSpace).head?, c ∈ ['{', '}', ';']) :
    Stops r := by
  rw [Stops]
  cases hr : r.dropWhile isSpace with
  | nil => exact atom_nil
  | cons c t => exact atom_eq_none (h c (by rw [hr]; rfl)) t

theorem stops_of_prelude {s l r : Text} (h : prelude s = some (l, r)) : Stops r := by
  obtain ⟨l₁, r₁, l₂, -, hmany, -⟩ := seq_eq_some_iff.1 h
  have hr : (many (seq spaces atom) r₁).2 = r := congrArg Prod.snd (Option.some.inj hmany)
  rw [stops_iff, ← hr]
  exact productive_step.many_stops r₁

theorem stops_of_prelude_eq_none {s : Text} (h : prelude (s.dropWhile isSpace) = none) :
    Stops s := by
  rw [Stops]
  cases hatom : atom (s.dropWhile isSpace) with
  | none => rfl
  | some x => simp [prelude, seq, hatom] at h

/-- The white space behind a colon is taken with it. -/
theorem stops_of_colon {s l r : Text} (h : colon s = some (l, r)) (hr : prelude r = none) :
    Stops r := by
  obtain ⟨_, _, _, -, h, -⟩ := seq_eq_some_iff.1 h
  obtain ⟨_, r₂, _, -, hspaces, -⟩ := seq_eq_some_iff.1 h
  obtain rfl : r₂.dropWhile isSpace = r := congrArg Prod.snd (Option.some.inj hspaces)
  exact stops_of_prelude_eq_none (by rwa [List.dropWhile_idempotent])

theorem stops_of_semicolon {s : Text} (h : (s.head? == some ';') = true) : Stops s := by
  obtain ⟨t, rfl⟩ := List.head?_eq_some_iff.1 (beq_iff_eq.1 h)
  exact stops_of_head? (by simp [show isSpace ';' = false from rfl])

/-! ## Names and values -/

/-- A character of a name: a letter, a digit, a hyphen or an underscore. -/
def isNameChar (c : Char) : Bool := c == '-' || c == '_' || c.isAlphanum

/-- A character of a word: one of a name, a dot or a hash. -/
def isWordChar (c : Char) : Bool := isNameChar c || c == '.' || c == '#'

theorem isWordChar_of_isNameChar {c : Char} (h : isNameChar c = true) : isWordChar c = true := by
  simp [isWordChar, h]

/-- A character of a word is none of some other characters. -/
theorem notMem_of_isWordChar {c : Char} (hc : isWordChar c = true) {l : List Char}
    (hl : l.any isWordChar = false) : c ∉ l := fun h ↦ List.any_eq_false.1 hl c h hc

theorem isSpace_of_isWordChar {c : Char} (hc : isWordChar c = true) : isSpace c = false := by
  have h : c ∉ [' ', '\t', '\n', '\r', '\x0c'] := notMem_of_isWordChar hc (by decide)
  simpa [isSpace, and_assoc] using h

theorem isInert_of_isWordChar {c : Char} (hc : isWordChar c = true) : isInert c = true := by
  have h : c ∉ ['{', '}', ';', '"', '\'', '(', '[', '/'] := notMem_of_isWordChar hc (by decide)
  simp only [isInert, isSpace_of_isWordChar hc, h, decide_false, Bool.or_false, Bool.not_false]

theorem isBlank_of_isWordChar {c : Char} (h : isWordChar c = true) : Text.isBlank c = false := by
  have hbounds : 35 ≤ c.toNat ∧ c.toNat ≤ 122 := by
    simp only [isWordChar, isNameChar, Bool.or_eq_true, beq_iff_eq] at h
    rcases h with (((rfl | rfl) | h) | rfl) | rfl
    · decide
    · decide
    · have h' : 42 ≤ c.toNat ∧ c.toNat ≤ 122 := Marker.toNat_of_isAlphanum h
      omega
    · decide
    · decide
  simp only [Text.isBlank, Bool.or_eq_false_iff, Bool.and_eq_false_iff, decide_eq_false_iff_not,
    beq_eq_false_iff_ne]
  omega

/-- The name of an at-rule ends in front of any other character. -/
theorem atName_append {name r : Text} (hname : IsWord isNameChar name)
    (hr : ∀ c ∈ r.head?, isNameChar c = false) : atName (name ++ r) = some (name, r) := by
  refine many1_word (productive_char _) (p := isNameChar) ?_ hname ?_
  · intro c t hc
    exact if_pos hc
  · cases r with
    | nil => rfl
    | cons c t => exact if_neg (by simpa [isNameChar] using hr c rfl)

/-- The name of a property ends in front of its colon. -/
theorem property_append {prop : Text} (hprop : IsWord isNameChar prop) (r : Text) :
    property (prop ++ ':' :: r) = some (prop, ':' :: r) := by
  refine many1_word (productive_comment.orElse (productive_unlessComment _)) (p := isNameChar)
    ?_ hprop ?_
  · intro c t hc
    have hword := isWordChar_of_isNameChar hc
    have hclass : c ∉ [':', ';', '{', '}'] := notMem_of_isWordChar hword (by decide)
    have hslash : c ∉ ['/'] := notMem_of_isWordChar hword (by decide)
    have hopens : opensComment (c :: t) = false := opensComment_eq_false (by simpa using hslash) t
    simp only [orElse, comment_eq_none hopens, hopens, Scanner.char, isSpace_of_isWordChar hword,
      hclass]
    rfl
  · rfl

/-- A colon and a space are taken in front of a value. -/
theorem colon_append {r : Text} (hr : ∀ c ∈ r.head?, isSpace c = false) :
    colon (':' :: ' ' :: r) = some ([':', ' '], r) := by
  have hspaces : spaces ([' '] ++ r) = some ([' '], r) :=
    run_append (List.all_eq_true.1 (by decide)) hr
  refine seq_eq_some_iff.2 ⟨[], ':' :: ' ' :: r, _, rfl, ?_, rfl⟩
  exact seq_eq_some_iff.2 ⟨[':'], ' ' :: r, [' '], rfl, hspaces, rfl⟩

/-- Without a semicolon behind it, white space does not belong to a value. -/
theorem trailing_eq_none {r : Text}
    (h : r.head? = some ';' ∨ (r.dropWhile isSpace).head? ≠ some ';') : trailing r = none := by
  cases r with
  | nil => rfl
  | cons c t =>
    cases hc : isSpace c with
    | false => simp [trailing, followedBy, many1, seq, Scanner.char, hc]
    | true =>
      have hne : c ≠ ';' := by
        rintro rfl
        cases hc
      have hstar : some (many (Scanner.char isSpace) t) = run isSpace t :=
        congrFun (star_char isSpace) t
      have htest : (t.dropWhile isSpace).head? ≠ some ';' := by simpa [hne, hc] using h
      simp [trailing, followedBy, many1, seq, Scanner.char, hc, hstar, run, htest]

end Css.Lexeme

end EmbeddedCss
