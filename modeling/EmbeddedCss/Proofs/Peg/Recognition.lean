import EmbeddedCss.Proofs.Peg.Basic

/-! # Scanners of parsing expressions

A scanner recognizes an expression if it reads what the expression matches and refuses where the
expression fails. Each combinator of scanners recognizes the operator that it stands for. What a
rule matches may contain the rule again, so the statements are about texts of at most `n`
characters: behind the first character of a rule, one character less is enough. -/

namespace EmbeddedCss

namespace Scanner

/-- A given text. -/
def text (t : Text) : Scanner := fun s ↦ (Text.dropStart? t s).map fun r ↦ (t, r)

/-- Nothing, where a text passes a test. -/
def ahead (test : Text → Bool) : Scanner := fun s ↦ if test s then some ([], s) else none

/-- Any character. -/
def any : Scanner := char fun _ ↦ true

/-- As many lexemes as there are, perhaps none, as one lexeme. -/
def star (a : Scanner) : Scanner := fun s ↦ some (many a s)

theorem exact_text (t : Text) : (text t).Exact := by
  intro s l r h
  obtain ⟨r', hr', he⟩ := Option.map_eq_some_iff.1 h
  obtain ⟨rfl, rfl⟩ := Prod.mk.inj he
  exact Text.dropStart?_eq_some_iff.1 hr'

theorem text_eq_none {t s : Text} (h : ∀ r, s ≠ t ++ r) : text t s = none := by
  rw [text, Option.map_eq_none_iff, Option.eq_none_iff_forall_ne_some]
  intro r hr
  exact h r (Text.dropStart?_eq_some_iff.1 hr).symm

theorem ahead_eq_some {test : Text → Bool} {s l r : Text} (h : ahead test s = some (l, r)) :
    test s = true ∧ l = [] ∧ r = s := by
  simp only [ahead, Option.ite_none_right_eq_some, Option.some.injEq, Prod.mk.injEq] at h
  exact ⟨h.1, h.2.1.symm, h.2.2.symm⟩

theorem exact_ahead (test : Text → Bool) : (ahead test).Exact := by
  intro s l r h
  obtain ⟨-, rfl, rfl⟩ := ahead_eq_some h
  rfl

/-- A sequence reads something if its second part does. -/
theorem Exact.seq_productive {a b : Scanner} (ha : a.Exact) (hb : b.Productive) :
    (Scanner.seq a b).Productive := by
  refine ⟨ha.seq hb.1, fun s l r h ↦ ?_⟩
  obtain ⟨l₁, r₁, l₂, -, h₂, rfl⟩ := seq_eq_some_iff.1 h
  simp [hb.2 h₂]

/-- A sequence matches if its second part matches what the first part leaves. -/
theorem isSome_seq (a b : Scanner) (s : Text) :
    (seq a b s).isSome = (a s).any fun p ↦ (b p.2).isSome := by
  simp only [seq]
  cases a s with
  | none => rfl
  | some p => simp

theorem any_ahead (test : Text → Bool) (s : Text) (f : Text × Text → Bool) :
    (ahead test s).any f = (test s && f ([], s)) := by
  rw [ahead]
  cases test s <;> rfl

theorem isSome_ahead (test : Text → Bool) (s : Text) : (ahead test s).isSome = test s := by
  rw [ahead]
  cases test s <;> rfl

theorem isSome_char_beq (c : Char) (s : Text) :
    (char (· == c) s).isSome = (s.head? == some c) := by
  cases s with
  | nil => rfl
  | cons d t => by_cases h : d = c <;> simp [char, h]

/-- A condition on what follows is a lexeme without characters. -/
theorem followedBy_eq_seq (a : Scanner) (test : Text → Bool) :
    followedBy a test = Scanner.seq a (ahead test) := by
  funext s
  simp only [followedBy, Scanner.seq, ahead]
  split
  · rfl
  · split <;> simp

theorem Exact.star {a : Scanner} (ha : a.Exact) : (Scanner.star a).Exact := by
  intro s l r h
  obtain ⟨rfl, rfl⟩ := Prod.mk.inj (Option.some.inj h)
  exact ha.many s

/-- A text needs no more turns than it has characters. -/
theorem Productive.upTo_eq {a : Scanner} (ha : a.Productive) {m n : Nat} {s : Text}
    (hm : s.length ≤ m) (hn : s.length ≤ n) : upTo a m s = upTo a n s := by
  induction m generalizing n s with
  | zero =>
    obtain rfl := List.length_eq_zero_iff.1 (Nat.le_zero.1 hm)
    cases n with
    | zero => rfl
    | succ n =>
      rw [upTo, upTo]
      split
      · rfl
      · rename_i h
        simpa using ha.length_lt h
  | succ m ih =>
    cases n with
    | zero =>
      obtain rfl := List.length_eq_zero_iff.1 (Nat.le_zero.1 hn)
      rw [upTo, upTo]
      split
      · rfl
      · rename_i h
        simpa using ha.length_lt h
    | succ n =>
      rw [upTo, upTo]
      split
      · rfl
      · rename_i l r h
        have := ha.length_lt h
        rw [ih (n := n) (by omega) (by omega)]

theorem many_of_none {a : Scanner} {s : Text} (h : a s = none) : many a s = ([], s) := by
  rw [many]
  cases s with
  | nil => rfl
  | cons c t => simp only [List.length_cons, upTo, h]

/-- A repetition that takes a lexeme goes on behind it. -/
theorem Productive.many_of_some {a : Scanner} (ha : a.Productive) {s l r : Text}
    (h : a s = some (l, r)) : many a s = (l ++ (many a r).1, (many a r).2) := by
  have hlt := ha.length_lt h
  obtain ⟨n, hn⟩ : ∃ n, s.length = n + 1 := ⟨s.length - 1, by omega⟩
  rw [many, hn, upTo]
  simp only [h]
  rw [ha.upTo_eq (m := n) (by omega) (Nat.le_refl r.length)]
  rfl

/-- A repetition stops where its scanner refuses. -/
theorem Productive.many_stops {a : Scanner} (ha : a.Productive) (s : Text) :
    a (many a s).2 = none := by
  induction hn : s.length using Nat.strongRecOn generalizing s with
  | ind n ih =>
    subst hn
    cases h : a s with
    | none => rwa [many_of_none h]
    | some x =>
      rw [ha.many_of_some h]
      exact ih _ (ha.length_lt h) _ rfl

/-- A repetition that takes nothing leaves the text to what follows. -/
theorem star_seq_of_none {a b : Scanner} {s : Text} (h : a s = none) :
    seq (star a) b s = b s := by
  simp only [seq, star, many_of_none h, List.nil_append]
  exact Option.map_id'

/-- What a sequence reads starts with what its first part starts with. -/
theorem seq_of_map {a a' b : Scanner} {s l r : Text}
    (h : a s = (a' r).map fun p ↦ (l ++ p.1, p.2)) :
    seq a b s = (seq a' b r).map fun p ↦ (l ++ p.1, p.2) := by
  simp only [seq, h]
  cases a' r with
  | none => rfl
  | some p => simp [Function.comp_def]

theorem Productive.star_seq_of_some {a b : Scanner} (ha : a.Productive) {s l r : Text}
    (h : a s = some (l, r)) :
    Scanner.seq (star a) b s = (Scanner.seq (star a) b r).map fun p ↦ (l ++ p.1, p.2) :=
  seq_of_map (by rw [star, star, ha.many_of_some h]; rfl)

/-- Where an alternative is refused, both of its parts are. -/
theorem orElse_eq_none {a b : Scanner} {s : Text} (h : orElse a b s = none) :
    a s = none ∧ b s = none := by
  simp only [orElse] at h
  split at h
  · rename_i ha
    exact ⟨ha, h⟩
  · cases h

theorem orElse_assoc (a b c : Scanner) : orElse (orElse a b) c = orElse a (orElse b c) := by
  funext s
  simp only [orElse]
  cases a s <;> rfl

/-- Characters of a class or of another are those of both classes. -/
theorem orElse_char_char (p p' : Char → Bool) :
    orElse (char p) (char p') = char fun c ↦ p c || p' c := by
  funext s
  cases s with
  | nil => rfl
  | cons c t =>
    cases h : p c <;> simp [orElse, char, h]

/-- A repetition of characters is a run. -/
theorem star_char (p : Char → Bool) : star (char p) = run p := by
  funext s
  induction s with
  | nil => rfl
  | cons c t ih =>
    cases hc : p c with
    | false =>
      have h : char p (c :: t) = none := by simp [char, hc]
      simp [star, run, many_of_none h, hc]
    | true =>
      have h : char p (c :: t) = some ([c], t) := by simp [char, hc]
      simp only [star, run, Option.some.injEq] at ih
      simp [star, run, (productive_char p).many_of_some h, ih, hc]

theorem text_singleton (c : Char) : text [c] = char (· == c) := by
  funext s
  cases s with
  | nil => rfl
  | cons d t =>
    simp only [text, Text.dropStart?, char, beq_iff_eq]
    by_cases h : c = d
    · simp [h]
    · simp [h, Ne.symm h]

end Scanner

namespace Peg

open Scanner

variable {ν : Type} {g : Grammar ν} {q : Bool} {n : Nat}

/-- A scanner reads what an expression matches, and refuses where the expression fails, in every
text of at most `n` characters. -/
def Recognizes (g : Grammar ν) (q : Bool) (n : Nat) (a : Scanner) (e : Expr ν) : Prop :=
  ∀ c : Cursor, c.rest.length ≤ n →
    Matches g q e c ((a c.rest).map fun p ↦ ([], advance c p.1 p.2))

/-- A test passes where an expression matches. -/
def Decides (g : Grammar ν) (q : Bool) (n : Nat) (test : Text → Bool) (e : Expr ν) : Prop :=
  ∀ c : Cursor, c.rest.length ≤ n →
    (test c.rest = true → ∃ m, Matches g q e c (some m)) ∧
    (test c.rest = false → Matches g q e c none)

variable {a b : Scanner} {e f : Expr ν} {test other : Text → Bool}

/-! ## Recognition -/

theorem recognizes_char (p : Char → Bool) : Recognizes g q n (Scanner.char p) (.char p) := by
  rintro ⟨_ | ⟨x, t⟩, offset⟩ -
  · exact .char_fails nofun
  · cases hx : p x with
    | true =>
      simp only [Scanner.char, hx]
      exact .char rfl hx
    | false =>
      simp only [Scanner.char, hx]
      refine .char_fails fun y r hy ↦ ?_
      obtain ⟨rfl, -⟩ := List.cons.inj hy
      exact hx

theorem recognizes_text (t : Text) : Recognizes g q n (Scanner.text t) (.text t) := by
  intro c _
  rw [Scanner.text]
  cases hr : Text.dropStart? t c.rest with
  | none =>
    refine .text_fails fun r hc ↦ ?_
    rw [hc, Text.dropStart?_append] at hr
    cases hr
  | some r => exact .text (Text.dropStart?_eq_some_iff.1 hr).symm

/-- One scanner after the other stands for one expression after the other. The second need only
recognize what the first may leave. -/
theorem Recognizes.seq_of_length_le {m : Nat} (ha : Recognizes g q m a e)
    (hb : Recognizes g q n b f)
    (hle : ∀ {s l r}, a s = some (l, r) → s.length ≤ m → r.length ≤ n) :
    Recognizes g q m (Scanner.seq a b) (.seq e f) := by
  intro c hc
  have hfirst := ha c hc
  simp only [Scanner.seq]
  cases hs : a c.rest with
  | none =>
    rw [hs] at hfirst
    exact .seq_fails_first hfirst
  | some p =>
    rw [hs] at hfirst
    have hsecond := hb (advance c p.1 p.2) (hle hs hc)
    simp only [advance] at hsecond
    cases hr : b p.2 with
    | none =>
      rw [hr] at hsecond
      simp only [hr]
      exact .seq_fails_second hfirst hsecond
    | some p' =>
      rw [hr] at hsecond
      simp only [hr, Option.map_some, advance, Text.size_append]
      rw [← Nat.add_assoc]
      exact .seq hfirst hsecond

theorem Recognizes.seq (ha : Recognizes g q n a e) (hexact : a.Exact)
    (hb : Recognizes g q n b f) : Recognizes g q n (Scanner.seq a b) (.seq e f) := by
  refine ha.seq_of_length_le hb fun hs hlength ↦ ?_
  rw [← hexact hs, List.length_append] at hlength
  omega

/-- Behind a scanner that reads something, one character less is left. -/
theorem Recognizes.seq_succ (ha : Recognizes g q (n + 1) a e) (hproductive : a.Productive)
    (hb : Recognizes g q n b f) : Recognizes g q (n + 1) (Scanner.seq a b) (.seq e f) := by
  refine ha.seq_of_length_le hb fun hs hlength ↦ ?_
  have := hproductive.length_lt hs
  omega

theorem Recognizes.orElse (ha : Recognizes g q n a e) (hb : Recognizes g q n b f) :
    Recognizes g q n (Scanner.orElse a b) (.choice e f) := by
  intro c hc
  have hfirst := ha c hc
  simp only [Scanner.orElse]
  cases hs : a c.rest with
  | none =>
    rw [hs] at hfirst
    exact .choice_second hfirst (hb c hc)
  | some p =>
    rw [hs] at hfirst
    exact .choice_first hfirst

theorem Recognizes.star (ha : Recognizes g q n a e) (hproductive : a.Productive) :
    Recognizes g q n (Scanner.star a) (.star e) := by
  intro c hc
  induction hk : c.rest.length using Nat.strongRecOn generalizing c with
  | ind k ih =>
    have hfirst := ha c hc
    cases hs : a c.rest with
    | none =>
      rw [hs] at hfirst
      simp only [Scanner.star, many_of_none hs, Option.map_some]
      exact .star_stops hfirst
    | some p =>
      obtain ⟨l, r⟩ := p
      rw [hs] at hfirst
      have hlength := hproductive.length_lt hs
      have hrest := ih r.length (by omega) (advance c l r) (by simp only [advance]; omega) rfl
      simp only [Scanner.star, Option.map_some, advance] at hrest
      simp only [Scanner.star, hproductive.many_of_some hs, Option.map_some, advance,
        Text.size_append]
      rw [← Nat.add_assoc]
      exact .star_goes_on hfirst hrest

theorem Recognizes.plus (ha : Recognizes g q n a e) (hproductive : a.Productive) :
    Recognizes g q n (Scanner.many1 a) e.plus :=
  ha.seq hproductive.1 (ha.star hproductive)

/-- A rule that leaves no pair is recognized as what it matches. -/
theorem Recognizes.call_silent {r : ν} (hr : g.kind r = .silent)
    (ha : Recognizes g q n a (g.rule r)) : Recognizes g q n a (.call r) := by
  intro c hc
  have h := ha c hc
  have hq : (q || g.kind r == .atomic) = q := by
    rw [hr, Bool.or_eq_left_iff_imp]
    exact nofun
  cases hs : a c.rest with
  | none =>
    rw [hs] at h
    exact .call_fails (by rwa [hq])
  | some p =>
    rw [hs] at h
    have hcall := Matches.call (q := q) (n := r) (by rw [hq]; exact h)
    rwa [hr] at hcall

/-- Inside of an atomic rule, every rule is recognized as what it matches. -/
theorem Recognizes.call_quiet {r : ν} (ha : Recognizes g true n a (g.rule r)) :
    Recognizes g true n a (.call r) := by
  intro c hc
  have h := ha c hc
  cases hs : a c.rest with
  | none =>
    rw [hs] at h
    exact .call_fails h
  | some p =>
    rw [hs] at h
    have hcall := Matches.call (q := true) h
    have hpairs (span : Span) : (g.kind r).pairs true r span [] = [] := by cases g.kind r <;> rfl
    rwa [hpairs] at hcall

/-! ## Tests -/

/-- A scanner tests whether its expression matches. -/
theorem Recognizes.decides (ha : Recognizes g q n a e) (htest : ∀ s, (a s).isSome = test s) :
    Decides g q n test e := by
  intro c hc
  have h := ha c hc
  rw [← htest]
  cases hs : a c.rest with
  | none =>
    rw [hs] at h
    exact ⟨by simp, fun _ ↦ h⟩
  | some p =>
    rw [hs] at h
    exact ⟨fun _ ↦ ⟨_, h⟩, by simp⟩

theorem Decides.choice (he : Decides g q n test e) (hf : Decides g q n other f) :
    Decides g q n (fun s ↦ test s || other s) (.choice e f) := by
  intro c hc
  simp only [Bool.or_eq_true, Bool.or_eq_false_iff]
  constructor
  · intro h
    cases htest : test c.rest with
    | true =>
      obtain ⟨m, hm⟩ := (he c hc).1 htest
      exact ⟨m, .choice_first hm⟩
    | false =>
      obtain ⟨m, hm⟩ := (hf c hc).1 (h.resolve_left (by simp [htest]))
      exact ⟨m, .choice_second ((he c hc).2 htest) hm⟩
  · rintro ⟨htest, hother⟩
    exact .choice_second ((he c hc).2 htest) ((hf c hc).2 hother)

/-- A rule is decided by a test of what it matches. -/
theorem Decides.call {r : ν} (h : Decides g (q || g.kind r == .atomic) n test (g.rule r)) :
    Decides g q n test (.call r) := by
  intro c hc
  constructor
  · intro htest
    obtain ⟨m, hm⟩ := (h c hc).1 htest
    exact ⟨_, .call hm⟩
  · intro htest
    exact .call_fails ((h c hc).2 htest)

/-- A test stands for a positive predicate. -/
theorem Decides.and (he : Decides g q n test e) :
    Recognizes g q n (Scanner.ahead test) (.and e) := by
  intro c hc
  rw [Scanner.ahead]
  cases htest : test c.rest with
  | true =>
    obtain ⟨m, hm⟩ := (he c hc).1 htest
    exact .and hm
  | false => exact .and_fails ((he c hc).2 htest)

/-- A test that is turned round stands for a negative predicate. -/
theorem Decides.not (he : Decides g q n test e) :
    Recognizes g q n (Scanner.ahead fun s ↦ !test s) (.not e) := by
  intro c hc
  rw [Scanner.ahead]
  cases htest : test c.rest with
  | true =>
    obtain ⟨m, hm⟩ := (he c hc).1 htest
    exact .not_fails hm
  | false => exact .not ((he c hc).2 htest)

end Peg

end EmbeddedCss
