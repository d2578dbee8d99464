import EmbeddedCss.Parser.Basic

/-! # The frontier is the furthest failure

A trace holds every call that a parser made of something named, those inside other calls included. Of
the failed ones the frontier keeps the furthest place and some of those that failed there. A frontier
changes in three ways on the way through a trace: it moves on to a place further behind, it drops what
was blamed inside of a failed call in favour of the call, and it leaves a failed call out in favour of
the one blamed inside of it. None of these loses the furthest place, or leaves it without a name.

What one call does to a frontier is stated once, as a relation that composes; what a whole trace does
follows by induction along the trace. -/

namespace EmbeddedCss

variable {σ α β : Type}

/-! ## Calls -/

/-- Something named `symbol` was tried at `offset`, and matched there or not. -/
structure Call (σ : Type) where
  /-- What was tried. -/
  symbol : σ
  /-- Where it was tried. -/
  offset : Nat
  /-- Whether it matched. -/
  matched : Bool
deriving DecidableEq, Repr

mutual

/-- An attempt and those inside of it, as calls. -/
def Attempt.calls : Attempt σ → List (Call σ)
  | .mk symbol offset matched inner => ⟨symbol, offset, matched⟩ :: Attempt.callsAll inner

/-- Some attempts and those inside of them, as calls. -/
def Attempt.callsAll : List (Attempt σ) → List (Call σ)
  | [] => []
  | a :: rest => a.calls ++ Attempt.callsAll rest

end

@[simp] theorem Attempt.callsAll_append (as bs : List (Attempt σ)) :
    callsAll (as ++ bs) = callsAll as ++ callsAll bs := by
  induction as with
  | nil => rfl
  | cons a as ih => rw [List.cons_append, callsAll, ih, callsAll, List.append_assoc]

namespace Parser

/-- The calls that a parser makes at a place. -/
def calls (p : Parser σ α) (c : Cursor) : List (Call σ) := Attempt.callsAll (p c).trace

@[simp] theorem calls_pure (a : α) (c : Cursor) : (pure a : Parser σ α).calls c = [] := rfl

@[simp] theorem calls_lexeme (a : Scanner) (c : Cursor) :
    (lexeme a : Parser σ Text).calls c = [] := rfl

@[simp] theorem calls_ahead (test : Text → Bool) (c : Cursor) :
    (ahead test : Parser σ Unit).calls c = [] := rfl

/-- A parser calls itself by its name, and then what is inside. -/
@[simp] theorem calls_named (symbol : σ) (p : Parser σ α) (c : Cursor) :
    (named symbol p).calls c = ⟨symbol, c.offset, (p.value c).isSome⟩ :: p.calls c :=
  List.append_nil _

@[simp] theorem calls_token (symbol : σ) (a : Scanner) (c : Cursor) :
    (token symbol a).calls c = [⟨symbol, c.offset, (a c.rest).isSome⟩] := by
  rw [token, calls_named, calls_lexeme, value_lexeme, Option.isSome_map]

/-- Of two parsers in a row the second makes its calls where the first stopped. -/
theorem calls_bind (p : Parser σ α) (f : α → Parser σ β) (c : Cursor) :
    (p >>= f).calls c = p.calls c ++ (p.value c).elim [] fun r ↦ (f r.1).calls r.2 := by
  simp only [calls, value, Bind.bind]
  split <;> rename_i h
  · rw [h, Option.elim_none, List.append_nil]
  · rw [h, Attempt.callsAll_append, Option.elim_some]

@[simp] theorem calls_map (f : α → β) (p : Parser σ α) (c : Cursor) :
    (f <$> p).calls c = p.calls c := by
  change (p >>= fun a ↦ pure (f a)).calls c = _
  rw [calls_bind]
  cases p.value c <;> exact List.append_nil _

@[simp] theorem calls_char (x : Char) (c : Cursor) : (char x : Parser σ Unit).calls c = [] :=
  calls_map ..

/-- The second alternative is only called where the first one fails. -/
theorem calls_orElse (p q : Parser σ α) (c : Cursor) :
    (orElse p q).calls c = p.calls c ++ (p.value c).elim (q.calls c) fun _ ↦ [] := by
  simp only [calls, value, orElse]
  split <;> rename_i h
  · rw [h, Attempt.callsAll_append, Option.elim_none]
  · rw [h, Option.elim_some, List.append_nil]

@[simp] theorem calls_optional (p : Parser σ α) (c : Cursor) :
    (optional p).calls c = p.calls c := by
  rw [optional, calls_orElse, calls_map, calls_pure]
  cases (some <$> p).value c <;> exact List.append_nil _

end Parser

/-! ## Frontiers -/

/-- What some calls have made of a frontier `f`. -/
structure Frontier.Moved (f : Frontier σ) (calls : List (Call σ)) (g : Frontier σ) : Prop where
  /-- It is nowhere further in front. -/
  le : f.offset ≤ g.offset
  /-- No failed call is behind it. -/
  furthest : ∀ x ∈ calls, x.matched = false → x.offset ≤ g.offset
  /-- Whatever is blamed failed there, or was blamed before. -/
  blamed : ∀ s ∈ g.expected, ⟨s, g.offset, false⟩ ∈ calls ∨ g.offset = f.offset ∧ s ∈ f.expected
  /-- Nothing is blamed only if nothing has changed. -/
  unchanged : g.expected = [] → g.offset = f.offset ∧ f.expected = []
  /-- Something is blamed where a call failed. -/
  named : ∀ x ∈ calls, x.matched = false → x.offset = g.offset → g.expected ≠ []

namespace Frontier

theorem moved_refl (f : Frontier σ) : f.Moved [] f where
  le := Nat.le_refl _
  furthest x hx := by cases hx
  blamed s hs := .inr ⟨rfl, hs⟩
  unchanged h := ⟨rfl, h⟩
  named x hx := by cases hx

/-- One call after the other. -/
theorem Moved.trans {f g h : Frontier σ} {xs ys : List (Call σ)} (hf : f.Moved xs g)
    (hg : g.Moved ys h) : f.Moved (xs ++ ys) h where
  le := Nat.le_trans hf.le hg.le
  furthest x hx hfailed := by
    rcases List.mem_append.1 hx with hx | hx
    · exact Nat.le_trans (hf.furthest x hx hfailed) hg.le
    · exact hg.furthest x hx hfailed
  blamed s hs := by
    rcases hg.blamed s hs with hs | ⟨heq, hs⟩
    · exact .inl (List.mem_append_right _ hs)
    · rcases hf.blamed s hs with hs | ⟨heq', hs⟩
      · rw [← heq] at hs
        exact .inl (List.mem_append_left _ hs)
      · exact .inr ⟨heq.trans heq', hs⟩
  unchanged hnil := by
    obtain ⟨heq, hnil⟩ := hg.unchanged hnil
    obtain ⟨heq', hnil⟩ := hf.unchanged hnil
    exact ⟨heq.trans heq', hnil⟩
  named x hx hfailed heq := by
    rcases List.mem_append.1 hx with hx | hx
    · -- the place was reached before, and something has been blamed there since
      intro hnil
      obtain ⟨hsame, hnil⟩ := hg.unchanged hnil
      exact hf.named x hx hfailed (heq.trans hsame) hnil
    · exact hg.named x hx hfailed heq

/-- A call that leaves a frontier as it is matched, or failed at or in front of a frontier that has a
name. -/
theorem Moved.cons {f g : Frontier σ} {xs : List (Call σ)} (hf : f.Moved xs g) {x : Call σ}
    (hx : x.matched = false → x.offset ≤ g.offset ∧ (x.offset = g.offset → g.expected ≠ [])) :
    f.Moved (x :: xs) g where
  le := hf.le
  furthest y hy hfailed := by
    rcases List.mem_cons.1 hy with rfl | hy
    · exact (hx hfailed).1
    · exact hf.furthest y hy hfailed
  blamed s hs := (hf.blamed s hs).imp_left (List.mem_cons_of_mem x)
  unchanged := hf.unchanged
  named y hy hfailed heq := by
    rcases List.mem_cons.1 hy with rfl | hy
    · exact (hx hfailed).2 heq
    · exact hf.named y hy hfailed heq

/-- A failed call is blamed where it is not behind the frontier already. -/
theorem Moved.blame {f g : Frontier σ} {xs : List (Call σ)} (hf : f.Moved xs g) (symbol : σ)
    (offset before : Nat) :
    f.Moved (⟨symbol, offset, false⟩ :: xs) (g.blame symbol offset before) := by
  unfold Frontier.blame
  by_cases hlt : g.offset < offset
  · rw [if_pos hlt]
    have hle := hf.le
    refine ⟨Nat.le_trans hle (Nat.le_of_lt hlt), ?_, ?_, ?_, fun _ _ _ _ ↦ List.cons_ne_nil _ _⟩
    · intro y hy hfailed
      rcases List.mem_cons.1 hy with rfl | hy
      · exact Nat.le_refl _
      · exact Nat.le_trans (hf.furthest y hy hfailed) (Nat.le_of_lt hlt)
    · intro s hs
      rw [List.mem_singleton.1 hs]
      exact .inl (List.mem_cons_self ..)
    · exact fun h ↦ absurd h (List.cons_ne_nil _ _)
  · rw [if_neg hlt]
    by_cases heq : g.offset = offset
    · rw [if_pos heq]
      subst heq
      refine ⟨hf.le, ?_, ?_, ?_, ?_⟩
      · intro y hy hfailed
        rcases List.mem_cons.1 hy with rfl | hy
        · exact Nat.le_refl _
        · exact hf.furthest y hy hfailed
      · intro s hs
        rcases List.mem_append.1 hs with hs | hs
        · exact (hf.blamed s (List.mem_of_mem_take hs)).imp_left (List.mem_cons_of_mem _)
        · rw [List.mem_singleton.1 hs]
          exact .inl (List.mem_cons_self ..)
      · exact fun h ↦ absurd h (by simp)
      · exact fun _ _ _ _ ↦ by simp
    · rw [if_neg heq]
      apply hf.cons
      intro _
      exact ⟨Nat.le_of_not_lt hlt, fun h ↦ absurd h.symm heq⟩

/-- Something is expected where there are things to count. -/
theorem eq_offset_of_countAt {f : Frontier σ} {offset n : Nat} (h : f.countAt offset = n + 1) :
    offset = f.offset ∧ f.expected ≠ [] := by
  unfold countAt at h
  split at h
  · rename_i heq
    refine ⟨heq, ?_⟩
    rintro hnil
    rw [hnil] at h
    cases h
  · cases h

end Frontier

mutual

/-- What an attempt does to a frontier. -/
theorem Attempt.moved_replay : (a : Attempt σ) → (f : Frontier σ) → f.Moved a.calls (a.replay f)
  | .mk symbol offset matched inner, f => by
    have hinner := Attempt.moved_replayAll inner f
    rw [Attempt.calls, Attempt.replay]
    split
    · rename_i hkeeps
      apply hinner.cons
      intro hfailed
      -- the call is left out in favour of the one that was blamed at its place
      obtain rfl : matched = false := hfailed
      rw [Bool.false_or, beq_iff_eq] at hkeeps
      obtain ⟨heq, hne⟩ := Frontier.eq_offset_of_countAt hkeeps
      exact ⟨Nat.le_of_eq heq, fun _ ↦ hne⟩
    · rename_i hfails
      obtain rfl : matched = false := by
        rw [Bool.or_eq_true, not_or, Bool.not_eq_true] at hfails
        exact hfails.1
      exact hinner.blame symbol offset _

/-- What one attempt after the other does to a frontier. -/
theorem Attempt.moved_replayAll :
    (as : List (Attempt σ)) → (f : Frontier σ) → f.Moved (callsAll as) (replayAll as f)
  | [], f => f.moved_refl
  | a :: as, f => (a.moved_replay f).trans (Attempt.moved_replayAll as (a.replay f))

end

/-- The frontier of a parse in which a call failed is the furthest place of one, and names some of
the calls that failed there. -/
theorem Frontier.ofTrace_furthest {trace : List (Attempt σ)} {x : Call σ}
    (hx : x ∈ Attempt.callsAll trace) (hfailed : x.matched = false) :
    (∀ y ∈ Attempt.callsAll trace, y.matched = false → y.offset ≤ (ofTrace trace).offset) ∧
      (ofTrace trace).expected ≠ [] ∧
      ∀ s ∈ (ofTrace trace).expected,
        ⟨s, (ofTrace trace).offset, false⟩ ∈ Attempt.callsAll trace := by
  have hmoved : Frontier.Moved {} _ (ofTrace trace) := Attempt.moved_replayAll trace {}
  refine ⟨hmoved.furthest, ?_, ?_⟩
  · intro hnil
    -- the frontier has not left the start, but the failed call is not behind it
    have hstart : (ofTrace trace).offset = 0 := (hmoved.unchanged hnil).1
    have hle := hmoved.furthest x hx hfailed
    exact hmoved.named x hx hfailed (by omega) hnil
  · intro s hs
    rcases hmoved.blamed s hs with hs | ⟨-, hs⟩
    · exact hs
    · cases hs

end EmbeddedCss
