import EmbeddedCss.Host.Region
import EmbeddedCss.Template.Basic
import EmbeddedCss.Template.Error

/-! # Splitting a template body

A body is split at its interpolations. A backslash hides the character after it, so that an escaped
dollar sign opens no interpolation. The main statement is that the pieces make up the body. -/

namespace EmbeddedCss.Template

open Host

/-- The result for a body that starts with `s`: a template gets that part as `f` says, and the text
in front of an error gets it too. -/
def after (s : Text) (f : Template → Template) : Except Text Template → Except Text Template
  | .ok t => .ok (f t)
  | .error before => .error (s ++ before)

/-- Split a body at its interpolations. If one of them is never closed, the error is the text in
front of it. -/
def split : Text → Except Text Template
  | [] => .ok ⟨[], []⟩
  | '\\' :: c :: s => after ['\\', c] (prepend ['\\', c]) (split s)
  | '$' :: '{' :: s =>
    match _h : Region.close [.code] s with
    | none => .error []
    | some (code, rest) => after ('$' :: '{' :: code) (interpolate code.dropLast) (split rest)
  | c :: s => after [c] (prepend [c]) (split s)
termination_by s => s.length
decreasing_by
  · simp only [List.length_cons]; omega
  · have := (Region.productive_close_cons .code []).length_lt _h
    simp only [List.length_cons]; omega
  · simp

/-- A body splits only if what follows its start splits. -/
theorem exists_of_after_eq_ok {s : Text} {f : Template → Template} {r : Except Text Template}
    {t : Template} (h : after s f r = .ok t) : ∃ u, r = .ok u ∧ t = f u := by
  cases r with
  | error => simp [after] at h
  | ok u => exact ⟨u, rfl, by simpa [after] using h.symm⟩

/-- The pieces make up the body. -/
theorem text_of_split {s : Text} {t : Template} (h : split s = .ok t) : t.text = s := by
  fun_induction split s generalizing t with
  | case1 => simp only [Except.ok.injEq] at h; subst h; rfl
  | case2 c s ih =>
    obtain ⟨u, hu, rfl⟩ := exists_of_after_eq_ok h
    simp [ih hu]
  | case3 => simp at h
  | case4 s code rest e ih =>
    obtain ⟨u, hu, rfl⟩ := exists_of_after_eq_ok h
    have last := Region.closesAt_code.dropLast_append [] e
    simp only [text_interpolate, interpolation, List.append_assoc, ih hu]
    rw [← List.append_assoc code.dropLast, last, Region.exact_close _ e]
    rfl
  | case5 c s _ _ ih =>
    obtain ⟨u, hu, rfl⟩ := exists_of_after_eq_ok h
    simp [ih hu]

/-- Take a body apart. -/
def ofText (body : Text) : Except TemplateError Template :=
  match split body with
  | .ok t => .ok t
  | .error before => .error (.unclosedInterpolation ⟨Text.size before, Text.size body⟩)

/-- Put a template together from its literals and the code of its interpolations. -/
def ofPieces (literals codes : List Text) : Except TemplateError Template :=
  match ofPieces? literals codes with
  | some t => .ok t
  | none => .error (.mismatch literals.length codes.length)

end EmbeddedCss.Template
