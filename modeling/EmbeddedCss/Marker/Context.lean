import EmbeddedCss.Text.Basic

/-! # Lexical context

Whether a place in a stylesheet lies inside a comment decides which form a marker takes there. The
context is found by reading the text in front of that place. -/

namespace EmbeddedCss.Marker

/-- What a place in a stylesheet lies in. -/
inductive Context where
  | code
  | comment
  | string (quote : Char)
deriving DecidableEq, Repr

namespace Context

/-- The context after some text. A string ends with its line at the latest, and hides the character
after a backslash. A delimiter of two characters counts only if both stand in the text. -/
def after : Context → Text → Context
  | ctx, [] => ctx
  | .code, '/' :: '*' :: t => after .comment t
  | .code, c :: t => if c = '"' ∨ c = '\'' then after (.string c) t else after .code t
  | .comment, '*' :: '/' :: t => after .code t
  | .comment, _ :: t => after .comment t
  | .string quote, '\\' :: _ :: t => after (.string quote) t
  | .string quote, c :: t =>
    if c = quote ∨ c = '\n' then after .code t else after (.string quote) t

@[simp] theorem after_nil (ctx : Context) : ctx.after [] = ctx := by
  cases ctx <;> rfl

/-- A character that closes nothing is passed over in a comment. -/
theorem after_comment_cons {c : Char} {t : Text} (h : ∀ u, c = '*' → t ≠ '/' :: u) :
    comment.after (c :: t) = comment.after t := by
  rw [after]
  intro u hc ht
  exact h u hc ht

/-! ## Strings -/

/-- A string has one of the two quotes. -/
def Regular : Context → Prop
  | .string quote => quote = '"' ∨ quote = '\''
  | .code | .comment => True

theorem regular_code : code.Regular := trivial

/-- Reading leads only to strings with one of the two quotes. -/
theorem Regular.after {ctx : Context} (h : ctx.Regular) (t : Text) : (ctx.after t).Regular := by
  fun_induction Context.after ctx t with
  | case1 => exact h
  | case2 t ih => exact ih trivial
  | case3 c t _ hquote ih => exact ih hquote
  | case4 c t _ _ ih => exact ih trivial
  | case5 t ih => exact ih trivial
  | case6 c t _ ih => exact ih trivial
  | case7 quote c t ih => exact ih h
  | case8 quote c t _ _ ih => exact ih trivial
  | case9 quote c t _ _ ih => exact ih h

end Context

end EmbeddedCss.Marker
