import EmbeddedCss.Proofs.Css.Words

/-! # Braces that count

A text is cut from its front into pieces: closed comments, strings and groups, and the single
characters between them. A brace counts if it is a piece by itself. Of the blocks that are opened in
front of an offset some are closed again; a closing brace closes the last of those that are open, and
nothing if none is.

Most lexemes of a stylesheet are made of whole pieces, none of which is a brace. The name of a
property is not: a quote or a parenthesis is an ordinary character there. -/

namespace EmbeddedCss

namespace Css

/-! ## Pieces -/

/-- The piece at the front of a text: a closed comment, string or group, or else one character. -/
def Lexeme.piece : Scanner := Scanner.orElse closed (Scanner.char fun _ ↦ true)

theorem Lexeme.productive_piece : piece.Productive :=
  productive_closed.orElse (Scanner.productive_char _)

/-- The pieces of a text. -/
def pieces (s : Text) : List Text :=
  match _h : Lexeme.piece s with
  | none => []
  | some (l, r) => l :: pieces r
termination_by s.length
decreasing_by exact Lexeme.productive_piece.length_lt _h

theorem pieces_of_piece {s l r : Text} (h : Lexeme.piece s = some (l, r)) :
    pieces s = l :: pieces r := by
  rw [pieces]
  split
  · rename_i h'
    cases h.symm.trans h'
  · rename_i h'
    cases h.symm.trans h'
    rfl

theorem pieces_single {c : Char} {t : Text} (h : Lexeme.closed (c :: t) = none) :
    pieces (c :: t) = [c] :: pieces t := by
  apply pieces_of_piece
  rw [Lexeme.piece, Scanner.orElse, h]
  rfl

/-- A brace is a piece wherever a piece starts. -/
theorem closed_brace {c : Char} (hc : c ∈ ['{', '}']) (t : Text) :
    Lexeme.closed (c :: t) = none := by
  simp only [List.mem_cons, List.not_mem_nil, or_false] at hc
  rcases hc with rfl | rfl
  · exact Lexeme.closed_eq_none (by decide) t
  · exact Lexeme.closed_eq_none (by decide) t

/-- No piece is empty, and the pieces of a text make up the text. -/
theorem flatten_pieces (s : Text) : (pieces s).flatten = s ∧ ∀ l ∈ pieces s, l ≠ [] := by
  fun_induction pieces s with
  | case1 s h =>
    cases s with
    | nil => exact ⟨rfl, nofun⟩
    | cons c t =>
      rw [Lexeme.piece, Scanner.orElse] at h
      split at h <;> cases h
  | case2 s l r h ih =>
    rw [List.flatten_cons, ih.1]
    refine ⟨Lexeme.productive_piece.1 h, List.forall_mem_cons.2 ⟨?_, ih.2⟩⟩
    exact Lexeme.productive_piece.2 h

/-- What is left behind some of the pieces has the other pieces. -/
theorem pieces_flatten_of_append {s : Text} {ps qs : List Text} (h : pieces s = ps ++ qs) :
    pieces qs.flatten = qs := by
  induction ps generalizing s with
  | nil =>
    rw [List.nil_append] at h
    rw [← h, (flatten_pieces s).1]
  | cons p ps ih =>
    rw [pieces] at h
    split at h
    · cases h
    · obtain ⟨-, h⟩ := List.cons.inj h
      exact ih h

/-! ## Counting -/

/-- Some pieces hold no brace. -/
def Quiet (ps : List Text) : Prop := ∀ l ∈ ps, l ≠ ['{'] ∧ l ≠ ['}']

instance (ps : List Text) : Decidable (Quiet ps) :=
  inferInstanceAs (Decidable (∀ l ∈ ps, _))

section Words

variable {ps qs : List Text}

theorem Quiet.append (hp : Quiet ps) (hq : Quiet qs) : Quiet (ps ++ qs) :=
  List.forall_mem_append.2 ⟨hp, hq⟩

theorem quiet_single {c : Char} (hc : c ∉ ['{', '}']) : Quiet [[c]] := by
  rintro _ (_ | ⟨_, ⟨⟩⟩)
  constructor
  · rintro ⟨⟩
    exact hc (by decide)
  · rintro ⟨⟩
    exact hc (by decide)

/-- How many blocks are open behind a piece. A closing brace ends one if there is one. -/
def openAfter (n : Nat) (l : Text) : Nat :=
  if l = ['{'] then n + 1 else if l = ['}'] then n - 1 else n

/-- Some pieces leave `m` more blocks open than there were. -/
def Opens (ps : List Text) (m : Nat) : Prop := ∀ n, ps.foldl openAfter n = n + m

/-- Some pieces close the blocks that they open. -/
def Balanced (ps : List Text) : Prop := Opens ps 0

/-- Some pieces close no more blocks than they open. -/
def Rises (ps : List Text) : Prop := ∃ m, Opens ps m

/-- Some pieces leave a block open that they open. -/
def Deep (ps : List Text) : Prop := ∃ m, Opens ps (m + 1)

/-- Some pieces pass no brace, or end inside of a block that they open. -/
def QuietOrDeep (ps : List Text) : Prop := Quiet ps ∨ Deep ps

theorem quietOrDeep_nil : QuietOrDeep [] := .inl nofun

theorem Quiet.balanced (h : Quiet ps) : Balanced ps := by
  intro n
  induction ps with
  | nil => rfl
  | cons l ps ih =>
    obtain ⟨⟨hopen, hclose⟩, hps⟩ := List.forall_mem_cons.1 h
    rw [List.foldl_cons, openAfter, if_neg hopen, if_neg hclose]
    exact ih hps

theorem Balanced.opens_append {m : Nat} (hp : Balanced ps) (hq : Opens qs m) :
    Opens (ps ++ qs) m := by
  intro n
  rw [List.foldl_append, hp, hq]
  rfl

theorem Balanced.append (hp : Balanced ps) (hq : Balanced qs) : Balanced (ps ++ qs) :=
  hp.opens_append hq

theorem Rises.of_append (hp : Balanced ps) : Rises qs → Rises (ps ++ qs)
  | ⟨m, hq⟩ => ⟨m, hp.opens_append hq⟩

theorem Deep.of_append (hp : Balanced ps) : Deep qs → Deep (ps ++ qs)
  | ⟨m, hq⟩ => ⟨m, hp.opens_append hq⟩

theorem QuietOrDeep.of_append (hp : Quiet ps) (hq : QuietOrDeep qs) : QuietOrDeep (ps ++ qs) :=
  hq.imp hp.append (.of_append hp.balanced)

/-- Behind an opening brace there is a block open. -/
theorem Rises.deep_cons (h : Rises ps) : Deep ([['{']] ++ ps) := by
  obtain ⟨m, h⟩ := h
  refine ⟨m, fun n ↦ ?_⟩
  rw [List.singleton_append, List.foldl_cons, h, Nat.add_comm m 1, ← Nat.add_assoc]
  rfl

/-- A closing brace ends the block of the last opening one. -/
theorem Balanced.block (h : Balanced ps) : Balanced ([['{']] ++ (ps ++ [['}']])) := by
  intro n
  rw [List.singleton_append, List.foldl_cons, List.foldl_append, h]
  rfl

end Words

/-- The pieces of a list that start in front of an offset. -/
def startingBefore : Nat → List Text → List Text
  | _, [] => []
  | offset, l :: ps => if offset = 0 then [] else l :: startingBefore (offset - Text.size l) ps

/-- The pieces of a text that start in front of an offset. -/
def piecesBefore (offset : Nat) (s : Text) : List Text := startingBefore offset (pieces s)

/-- How many blocks are opened in front of an offset and not closed in front of it. -/
def unclosed (offset : Nat) (s : Text) : Nat := (piecesBefore offset s).foldl openAfter 0

theorem piecesBefore_zero (s : Text) : piecesBefore 0 s = [] := by
  rw [piecesBefore]
  cases pieces s with
  | nil => rfl
  | cons l ps => exact if_pos rfl

theorem startingBefore_append {ps : List Text} (h : ∀ l ∈ ps, l ≠ []) (k : Nat) (qs : List Text) :
    startingBefore (Text.size ps.flatten + k) (ps ++ qs) = ps ++ startingBefore k qs := by
  induction ps with
  | nil => rw [List.flatten_nil, Text.size_nil, Nat.zero_add, List.nil_append, List.nil_append]
  | cons l ps ih =>
    obtain ⟨hl, hps⟩ := List.forall_mem_cons.1 h
    have hpos := Text.size_pos hl
    rw [List.flatten_cons, Text.size_append, Nat.add_assoc, List.cons_append, startingBefore,
      if_neg (by omega), Nat.add_sub_cancel_left, ih hps, List.cons_append]

/-- Behind some whole pieces the count goes on with what is left. -/
theorem piecesBefore_add {s r : Text} {ps : List Text} (h : pieces s = ps ++ pieces r) (k : Nat) :
    piecesBefore (Text.size ps.flatten + k) s = ps ++ piecesBefore k r := by
  rw [piecesBefore, h, startingBefore_append, piecesBefore]
  intro l hl
  apply (flatten_pieces s).2
  rw [h]
  exact List.mem_append_left _ hl

end Css

/-! ## Lexemes -/

namespace Scanner

open Css

/-- What a scanner reads is made of whole pieces, and holds no brace. -/
def IsCalm (a : Scanner) : Prop :=
  ∀ ⦃s l r⦄, a s = some (l, r) → ∃ ps, ps.flatten = l ∧ pieces s = ps ++ pieces r ∧ Quiet ps

variable {a b : Scanner}

theorem IsCalm.seq (ha : a.IsCalm) (hb : b.IsCalm) : (Scanner.seq a b).IsCalm := by
  intro s l r h
  obtain ⟨l₁, r₁, l₂, h₁, h₂, rfl⟩ := seq_eq_some_iff.1 h
  obtain ⟨ps, rfl, hps, hquiet⟩ := ha h₁
  obtain ⟨qs, rfl, hqs, hquiet'⟩ := hb h₂
  exact ⟨ps ++ qs, List.flatten_append, by rw [hps, hqs, List.append_assoc], hquiet.append hquiet'⟩

theorem IsCalm.followedBy (ha : a.IsCalm) (test : Text → Bool) :
    (Scanner.followedBy a test).IsCalm := fun _ _ _ h ↦ ha (of_followedBy h).1

theorem IsCalm.star (ha : a.IsCalm) : (Scanner.star a).IsCalm := by
  have key : ∀ n s, ∃ ps, ps.flatten = (upTo a n s).1 ∧ pieces s = ps ++ pieces (upTo a n s).2 ∧
      Quiet ps := by
    intro n
    induction n with
    | zero => exact fun s ↦ ⟨[], rfl, rfl, nofun⟩
    | succ n ih =>
      intro s
      rw [upTo]
      split
      · exact ⟨[], rfl, rfl, nofun⟩
      · rename_i l r h
        obtain ⟨ps, rfl, hps, hquiet⟩ := ha h
        obtain ⟨qs, hqs, hqs', hquiet'⟩ := ih r
        refine ⟨ps ++ qs, ?_, ?_, hquiet.append hquiet'⟩
        · rw [List.flatten_append, hqs]
        · rw [hps, hqs', List.append_assoc]
  intro s l r h
  obtain ⟨rfl, rfl⟩ := Prod.mk.inj (Option.some.inj h)
  exact key _ s

theorem IsCalm.many1 (ha : a.IsCalm) : (Scanner.many1 a).IsCalm := ha.seq ha.star

/-- The characters that may open what is closed, and the braces. -/
def significant : List Char := ['/', '"', '\'', '(', '[', '{', '}']

theorem isCalm_char {p : Char → Bool} (hp : significant.any p = false) : (char p).IsCalm := by
  rintro (_ | ⟨c, t⟩) l r h
  · cases h
  · obtain ⟨hc, heq⟩ := Option.ite_none_right_eq_some.1 h
    cases heq
    have hnot : c ∉ significant := fun hmem ↦ List.any_eq_false.1 hp c hmem hc
    have hclosed : Lexeme.closed (c :: t) = none :=
      Lexeme.closed_eq_none (fun hmem ↦ hnot (List.mem_append_left ['{', '}'] hmem)) t
    refine ⟨[[c]], rfl, pieces_single hclosed, quiet_single ?_⟩
    exact fun hmem ↦ hnot (List.mem_append_right ['/', '"', '\'', '(', '['] hmem)

theorem isCalm_run {p : Char → Bool} (hp : significant.any p = false) : (run p).IsCalm := by
  rw [← star_char]
  exact (isCalm_char hp).star

end Scanner

namespace Css.Lexeme

open Scanner

/-- What is closed is a piece, and starts with none of the braces. -/
theorem isCalm_closed : closed.IsCalm := by
  intro s l r h
  have hpiece : piece s = some (l, r) := by rw [piece, orElse, h]
  refine ⟨[l], List.append_nil l, pieces_of_piece hpiece, ?_⟩
  have hne : ∀ c ∈ ['{', '}'], l ≠ [c] := by
    rintro c hc rfl
    rw [← productive_closed.1 h, List.singleton_append, closed_brace hc] at h
    cases h
  rintro _ (_ | ⟨_, ⟨⟩⟩)
  exact ⟨hne '{' (by decide), hne '}' (by decide)⟩

theorem isCalm_atom : atom.IsCalm := by
  intro s l r h
  cases hclosed : closed s with
  | some p =>
    rw [atom, orElse, hclosed] at h
    cases h
    exact isCalm_closed hclosed
  | none =>
    rw [atom, orElse, hclosed] at h
    obtain ⟨-, hchar⟩ := Option.ite_none_left_eq_some.1 h
    cases s with
    | nil => cases hchar
    | cons c t =>
      obtain ⟨hc, heq⟩ := Option.ite_none_right_eq_some.1 hchar
      cases heq
      refine ⟨[[c]], rfl, pieces_single hclosed, quiet_single ?_⟩
      rintro (_ | ⟨_, _ | ⟨_, ⟨⟩⟩⟩)
      · cases hc
      · cases hc

theorem isCalm_spaces : spaces.IsCalm := isCalm_run (by decide)

theorem isCalm_gap : gap.IsCalm := isCalm_run (by decide)

theorem isCalm_prelude : prelude.IsCalm := isCalm_atom.seq (isCalm_spaces.seq isCalm_atom).star

theorem isCalm_colon : colon.IsCalm :=
  isCalm_spaces.seq ((isCalm_char (by decide)).seq isCalm_spaces)

theorem isCalm_trailing : trailing.IsCalm := (isCalm_char (by decide)).many1.followedBy _

theorem isCalm_atName : atName.IsCalm := (isCalm_char (by decide)).many1

theorem isCalm_loneComment : loneComment.IsCalm := by
  intro s l r h
  apply isCalm_closed
  rw [closed, orElse, shielded, orElse, (of_followedBy h).1]

end Css.Lexeme

end EmbeddedCss
