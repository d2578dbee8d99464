import EmbeddedCss.Host.Scan
import EmbeddedCss.Proofs.Text.Place

/-! # Where tagged literals stand

The literals that are found in a file stand in it one behind the other. The span of each covers its
body, and its template is what that body splits into. -/

namespace EmbeddedCss

/-- The first part of a computation that succeeds has succeeded, and so has the second part. -/
theorem exists_of_bind_eq_ok {ε α β : Type} {x : Except ε α} {f : α → Except ε β} {b : β}
    (h : x >>= f = .ok b) : ∃ a, x = .ok a ∧ f a = .ok b := by
  cases x with
  | error e => cases h
  | ok a => exact ⟨a, rfl, h⟩

@[simp] theorem Text.size_reverse (t : Text) : Text.size t.reverse = Text.size t := by
  induction t with
  | nil => rfl
  | cons c t ih =>
    rw [List.reverse_cons, size_append, ih, size_cons, size_cons, size_nil]
    omega

namespace Host

/-- Tagged literals stand one behind the other in a text that starts at an offset: some code, the
body of the first of them, and then the others. -/
inductive Placed : Nat → Text → List Tagged → Prop
  | nil {offset : Nat} {t : Text} : Placed offset t []
  | cons {offset : Nat} {code body rest : Text} {f : Tagged} {fs : List Tagged} :
      f.content = ⟨offset + Text.size code, offset + Text.size code + Text.size body⟩ →
      Template.ofText body = .ok f.template →
      Placed (offset + Text.size code + Text.size body) rest fs →
      Placed offset (code ++ (body ++ rest)) (f :: fs)

/-- Code in front of a text moves what stands in it. -/
theorem Placed.prepend {offset : Nat} {u t : Text} {fs : List Tagged}
    (h : Placed (offset + Text.size u) t fs) : Placed offset (u ++ t) fs := by
  cases h with
  | nil => exact .nil
  | cons hcontent htemplate hrest =>
    rw [← List.append_assoc]
    refine .cons ?_ htemplate ?_
    · rw [hcontent, Text.size_append, Nat.add_assoc]
    · rwa [Text.size_append, ← Nat.add_assoc]

/-- A literal that is found stands in the text with its body. -/
theorem Placed.standsAt {offset : Nat} {source t : Text} {fs : List Tagged}
    (h : Placed offset t fs) (hsource : source.StandsAt offset t) {f : Tagged} (hf : f ∈ fs) :
    ∃ body r, source.StandsAt f.content.start (body ++ r) ∧
      f.content.stop = f.content.start + Text.size body ∧
      Template.ofText body = .ok f.template := by
  induction h with
  | nil => simp at hf
  | @cons offset code body rest g fs hcontent htemplate _ ih =>
    rcases List.mem_cons.1 hf with rfl | hf
    · refine ⟨body, rest, ?_, ?_, htemplate⟩
      · rw [hcontent]
        exact hsource.advance
      · rw [hcontent]
    · exact ih hsource.advance.advance hf

/-- What stands behind a token that was seen stands in the text with the token. -/
theorem Placed.behind {seen rest : Text} {token : Token} {fs : List Tagged}
    (h : Placed (Text.size (token.text.reverse ++ seen)) rest fs) :
    Placed (Text.size seen) (token.text ++ rest) fs := by
  rw [Text.size_append, Text.size_reverse, Nat.add_comm] at h
  exact h.prepend

/-- What is collected from some tokens stands in their text. -/
theorem placed_of_collect {o : Options} {ts : List Token} {seen : Text} {off : Option Nat}
    {found : List Tagged} (h : collect o seen off ts = .ok found) :
    Placed (Text.size seen) (ts.flatMap Token.text) found := by
  fun_induction collect o seen off ts generalizing found with
  | case1 seen off =>
    obtain rfl : [] = found := by simpa using h
    exact .nil
  | case2 => simp at h
  | case3 seen off body rest ih =>
    obtain ⟨later, hlater, h⟩ := exists_of_bind_eq_ok h
    have hplaced := ih hlater
    rw [List.flatMap_cons]
    split at h
    dsimp only at h
    split at h
    · -- the literal does not count
      obtain rfl : later = found := Except.ok.inj h
      exact hplaced.behind
    · obtain ⟨template, htemplate, h⟩ := exists_of_bind_eq_ok h
      obtain rfl := Except.ok.inj h
      have htext : (Token.template body).text ++ rest.flatMap Token.text =
          ['`'] ++ (body ++ (['`'] ++ rest.flatMap Token.text)) := by
        simp [Token.text]
      have hsize : Text.size ((Token.template body).text.reverse ++ seen) =
          Text.size seen + Text.size ['`'] + Text.size body + Text.size ['`'] := by
        rw [Text.size_append, Text.size_reverse, Token.text, List.cons_append, Text.size_cons,
          Text.size_append, Text.size_cons, Text.size_nil]
        omega
      rw [htext]
      refine .cons rfl htemplate (.prepend ?_)
      rwa [← hsize]
  | case4 seen off token rest =>
    rename_i ih
    rw [List.flatMap_cons]
    exact (ih h).behind

/-- What is found in a file stands in it. -/
theorem placed_of_scan {o : Options} {source : Text} {found : List Tagged}
    (h : scan o source = .ok found) : Placed 0 source found := by
  simp only [scan] at h
  split at h
  · obtain rfl : [] = found := Except.ok.inj h
    exact .nil
  · have hplaced := placed_of_collect h
    rwa [flatMap_text_tokens] at hplaced

end Host

end EmbeddedCss
