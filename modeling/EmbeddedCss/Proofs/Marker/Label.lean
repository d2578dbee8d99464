import EmbeddedCss.Marker.Encode
import Mathlib.Data.List.Infix
import Mathlib.Order.Interval.Finset.Nat

/-! # Labels are fresh

The label of the markers of a template stands in none of its literal texts with a colon behind it.
The search for it is bounded by the number of colons in these texts, so that the bound has to be
shown to be enough: each number that is taken has a colon to itself, since two labels that end at
the same colon have the same number. The label that is found is then the first free one. -/

namespace EmbeddedCss

theorem Text.occurs_iff_infix (sought t : Text) : Text.occurs sought t = true ↔ sought <:+: t := by
  induction t with
  | nil => simp [Text.occurs]
  | cons c t ih => simp [Text.occurs, ih, List.infix_cons_iff]

theorem Text.ofNat_injective {m n : Nat} (h : Text.ofNat m = Text.ofNat n) : m = n := by
  have hvalue := congrArg (fun digits ↦ Nat.ofDigitChars 10 digits 0) h
  simpa [Text.ofNat, Nat.ofDigitChars_toDigits] using hvalue

theorem Text.isDigit_of_mem_ofNat {n : Nat} {c : Char} (h : c ∈ Text.ofNat n) :
    c.isDigit = true := Nat.isDigit_of_mem_toDigits (by decide) (by decide) h

namespace Marker

/-! ## Colons of labels with a number -/

/-- Of the labels with a number, at most one ends where a given text ends. -/
theorem eq_of_salted_suffix {base t : Text} {m n : Nat} (hm : salted base m <:+ t)
    (hn : salted base n <:+ t) : m = n := by
  -- the digits are what stands behind the last underscore
  have digits : ∀ {k}, salted base k <:+ t →
      t.reverse.takeWhile (· != '_') = (Text.ofNat k).reverse := by
    rintro k ⟨u, rfl⟩
    have hdigits : ∀ c ∈ (Text.ofNat k).reverse, (c != '_') = true := by
      intro c hc
      have := Text.isDigit_of_mem_ofNat (List.mem_reverse.1 hc)
      rw [bne_iff_ne]
      rintro rfl
      exact absurd this (by decide)
    rw [salted, List.reverse_append, List.reverse_append, List.reverse_cons, List.append_assoc,
      List.append_assoc, List.takeWhile_append_of_pos hdigits]
    simp
  exact Text.ofNat_injective (List.reverse_injective ((digits hm).symm.trans (digits hn)))

/-- The labels with a number that stand in a text with a colon behind them are no more than the
text has colons. -/
theorem card_le_count_colon (base t : Text) (s : Finset Nat)
    (h : ∀ n ∈ s, salted base n ++ [':'] <:+: t) : s.card ≤ t.count ':' := by
  induction t using List.reverseRecOn generalizing s with
  | nil =>
    have : s = ∅ := by
      rw [Finset.eq_empty_iff_forall_notMem]
      intro n hn
      simpa using h n hn
    simp [this]
  | append_singleton t c ih =>
    have hold : (s.filter fun n ↦ salted base n ++ [':'] <:+: t).card ≤ t.count ':' :=
      ih _ fun n hn ↦ (Finset.mem_filter.1 hn).2
    -- a label that is new ends in front of the last character, which is its colon
    have hnew : ∀ n ∈ s.filter fun n ↦ ¬ salted base n ++ [':'] <:+: t,
        c = ':' ∧ salted base n <:+ t := by
      intro n hn
      obtain ⟨hn, hnot⟩ := Finset.mem_filter.1 hn
      rcases List.infix_concat_iff.1 (h n hn) with hs | hi
      · rcases List.suffix_concat_iff.1 hs with he | ⟨u, hu, hsuffix⟩
        · simp at he
        · obtain ⟨rfl, hc⟩ := List.append_inj' hu rfl
          exact ⟨by simpa using hc.symm, hsuffix⟩
      · exact absurd hi hnot
    have hone : (s.filter fun n ↦ ¬ salted base n ++ [':'] <:+: t).card ≤ [c].count ':' := by
      by_cases hc : c = ':'
      · subst hc
        refine Finset.card_le_one.2 fun m hm n hn ↦ ?_
        exact eq_of_salted_suffix (hnew m hm).2 (hnew n hn).2
      · rw [Finset.card_eq_zero.2]
        · exact Nat.zero_le _
        · rw [Finset.eq_empty_iff_forall_notMem]
          exact fun n hn ↦ hc (hnew n hn).1
    rw [List.count_append, ← Finset.card_filter_add_card_filter_not (s := s)
      (fun n ↦ salted base n ++ [':'] <:+: t)]
    exact Nat.add_le_add hold hone

theorem isTaken_iff (literals : List Text) (label : Text) :
    isTaken literals label = true ↔ ∃ l ∈ literals, label ++ [':'] <:+: l := by
  simp [isTaken, Text.occurs_iff_infix]

/-! ## The search -/

/-- The search passes over labels that are taken, and stops at one that is free unless it runs out
of fuel. -/
theorem firstFree_eq (literals : List Text) (base : Text) (fuel n : Nat) :
    ∃ m, firstFree literals base fuel n = salted base m ∧ n ≤ m ∧ m ≤ n + fuel ∧
      (∀ k, n ≤ k → k < m → isTaken literals (salted base k) = true) ∧
      (m < n + fuel → isTaken literals (salted base m) = false) := by
  induction fuel generalizing n with
  | zero => exact ⟨n, rfl, le_refl n, le_refl n, fun k h₁ h₂ ↦ by omega, fun h ↦ by omega⟩
  | succ fuel ih =>
    rw [firstFree]
    split
    · rename_i htaken
      obtain ⟨m, he, h₁, h₂, hbelow, hfree⟩ := ih (n + 1)
      refine ⟨m, he, by omega, by omega, fun k hk hkm ↦ ?_, fun h ↦ hfree (by omega)⟩
      rcases Nat.eq_or_lt_of_le hk with rfl | hk
      · exact htaken
      · exact hbelow k hk hkm
    · rename_i hfree
      refine ⟨n, rfl, le_refl n, by omega, fun k h₁ h₂ ↦ by omega, fun _ ↦ ?_⟩
      exact Bool.eq_false_iff.2 hfree

/-- The search finds a label that is free, and the first one, with the fuel that it is given. -/
theorem exists_firstFree_eq (literals : List Text) (base : Text) :
    ∃ m, firstFree literals base (literals.flatten.count ':') 1 = salted base m ∧ 1 ≤ m ∧
      m ≤ literals.flatten.count ':' + 1 ∧
      (∀ k, 1 ≤ k → k < m → isTaken literals (salted base k) = true) ∧
      isTaken literals (salted base m) = false := by
  obtain ⟨m, he, h₁, h₂, hbelow, hfree⟩ :=
    firstFree_eq literals base (literals.flatten.count ':') 1
  refine ⟨m, he, h₁, by omega, hbelow, ?_⟩
  by_contra htaken
  rw [Bool.not_eq_false] at htaken
  have hm : ¬ m < 1 + literals.flatten.count ':' := fun h ↦ by simp [hfree h] at htaken
  -- all numbers from `1` to `m` are taken, one more than there are colons
  have hall : ∀ k ∈ Finset.Icc 1 m, salted base k ++ [':'] <:+: literals.flatten := by
    intro k hk
    obtain ⟨hk₁, hk₂⟩ := Finset.mem_Icc.1 hk
    have hk : isTaken literals (salted base k) = true := by
      rcases Nat.eq_or_lt_of_le hk₂ with rfl | hlt
      · exact htaken
      · exact hbelow k hk₁ hlt
    obtain ⟨l, hl, hinfix⟩ := (isTaken_iff _ _).1 hk
    exact hinfix.trans (List.infix_of_mem_flatten hl)
  have hcard := card_le_count_colon base _ _ hall
  rw [Nat.card_Icc] at hcard
  omega

/-- The label of a template is not taken. -/
theorem isTaken_chooseLabel (base : Text) (literals : List Text) :
    isTaken literals (chooseLabel base literals) = false := by
  unfold chooseLabel
  split
  · obtain ⟨m, he, -, -, -, hfree⟩ := exists_firstFree_eq literals base
    rw [he]
    exact hfree
  · rename_i h
    exact Bool.eq_false_iff.2 h

/-! ## Characters of labels -/

/-- A character that can stand in a label. -/
def isLabelChar (c : Char) : Bool := c.isAlphanum || c == '_' || c == '-'

theorem isLabel_iff (label : Text) :
    Options.isLabel label = true ↔ label ≠ [] ∧ ∀ c ∈ label, isLabelChar c = true := by
  simp [Options.isLabel, isLabelChar]

/-- A number makes a label of a label. -/
theorem isLabel_salted {base : Text} (h : Options.isLabel base = true) (n : Nat) :
    Options.isLabel (salted base n) = true := by
  rw [isLabel_iff] at h ⊢
  refine ⟨by simp [salted], fun c hc ↦ ?_⟩
  rcases List.mem_append.1 hc with hc | hc
  · exact h.2 c hc
  · rcases List.mem_cons.1 hc with rfl | hc
    · rfl
    · simp [isLabelChar, Char.isAlphanum, Text.isDigit_of_mem_ofNat hc]

/-- A bare marker consists of characters of labels and colons. -/
theorem isLabelChar_of_mem_bare {label : Text} (h : Options.isLabel label = true) {index : Nat}
    {c : Char} (hc : c ∈ bare label index) : isLabelChar c = true ∨ c = ':' := by
  have hc' : c ∈ label ∨ c = ':' ∨ c ∈ Text.ofNat index ∨ c = ':' := by
    simpa [bare] using hc
  rcases hc' with hc | hc | hc | hc
  · exact .inl (((isLabel_iff label).1 h).2 c hc)
  · exact .inr hc
  · exact .inl (by simp [isLabelChar, Char.isAlphanum, Text.isDigit_of_mem_ofNat hc])
  · exact .inr hc

theorem isLabel_chooseLabel {base : Text} (h : Options.isLabel base = true)
    (literals : List Text) : Options.isLabel (chooseLabel base literals) = true := by
  unfold chooseLabel
  split
  · obtain ⟨m, he, -⟩ := firstFree_eq literals base (literals.flatten.count ':') 1
    rw [he]
    exact isLabel_salted h m
  · exact h

/-! ## The first free label -/

/-- No literal text holds a label with a colon behind it. -/
def IsFree (literals : List Text) (label : Text) : Prop :=
  ∀ l ∈ literals, ¬ label ++ [':'] <:+: l

theorem isFree_iff (literals : List Text) (label : Text) :
    IsFree literals label ↔ isTaken literals label = false := by
  rw [← Bool.not_eq_true, isTaken_iff]
  simp [IsFree]

instance (literals : List Text) (label : Text) : Decidable (IsFree literals label) :=
  decidable_of_iff _ (isFree_iff literals label).symm

/-- **The first free label.** The label of a template is its base where that is free, and otherwise
the base with the least number from one on that makes it free. There is such a number, and it is at
most one more than there are colons in the literal texts. So the label is free in any case, and it
can stand in a marker if the base can. -/
theorem chooseLabel_eq_first_free (base : Text) (literals : List Text) :
    (IsFree literals base → chooseLabel base literals = base) ∧
    (¬ IsFree literals base → ∃ n, IsLeast {k | 1 ≤ k ∧ IsFree literals (salted base k)} n ∧
      n ≤ literals.flatten.count ':' + 1 ∧ chooseLabel base literals = salted base n) ∧
    IsFree literals (chooseLabel base literals) ∧
    ∀ o : Options, o.label = base → o.validate = .ok () →
      { o with label := chooseLabel base literals }.validate = .ok () := by
  refine ⟨?_, ?_, (isFree_iff _ _).2 (isTaken_chooseLabel base literals), ?_⟩
  · intro hfree
    rw [chooseLabel, (isFree_iff _ _).1 hfree]
    rfl
  · intro htaken
    obtain ⟨n, he, hpos, hle, hbelow, hfree⟩ := exists_firstFree_eq literals base
    refine ⟨n, ⟨⟨hpos, (isFree_iff _ _).2 hfree⟩, ?_⟩, hle, ?_⟩
    · rintro k ⟨hk, hkfree⟩
      by_contra hlt
      have hktaken := hbelow k hk (Nat.lt_of_not_le hlt)
      rw [(isFree_iff _ _).1 hkfree] at hktaken
      cases hktaken
    · rw [isFree_iff, Bool.not_eq_false] at htaken
      rw [chooseLabel, htaken]
      exact he
  · rintro o rfl hvalid
    rw [Options.validate_eq_ok_iff] at hvalid ⊢
    exact ⟨isLabel_chooseLabel hvalid.1 literals, hvalid.2⟩

/-- A base that ends in a number itself. It is taken, and so is the base with the number one, but
the label with the number eleven, which has both of them in it, does not stand in the way. -/
theorem chooseLabel_eq_first_free_numbered :
    ¬ IsFree ["/*P_1:0*/P_1_1:".toList, "P_1_11:".toList] "P_1".toList ∧
    (∃ n, IsLeast {k | 1 ≤ k ∧
        IsFree ["/*P_1:0*/P_1_1:".toList, "P_1_11:".toList] (salted "P_1".toList k)} n ∧
      n ≤ 4 ∧
      chooseLabel "P_1".toList ["/*P_1:0*/P_1_1:".toList, "P_1_11:".toList] =
        salted "P_1".toList n) ∧
    chooseLabel "P_1".toList ["/*P_1:0*/P_1_1:".toList, "P_1_11:".toList] = "P_1_2".toList := by
  have htaken : ¬ IsFree ["/*P_1:0*/P_1_1:".toList, "P_1_11:".toList] "P_1".toList := by
    decide +kernel
  exact ⟨htaken, (chooseLabel_eq_first_free _ _).2.1 htaken, by decide +kernel⟩

end Marker

end EmbeddedCss
