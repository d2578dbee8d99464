import EmbeddedCss.Host.Region

/-! # Tokens of host code

Host code is cut into comments, strings, template literals and the single characters of what lies
between them. Nothing more is needed to find the template literals that count; what a regular
expression literal holds is taken for code. The main statement is that the tokens make up the
text. -/

namespace EmbeddedCss.Host

/-- A piece of host code. A string or a block comment that is never closed goes on to the end of the
text. -/
inductive Token where
  /-- A character outside of the other tokens. -/
  | code (char : Char)
  /-- A quote and what belongs to the string it opens. -/
  | string (quote : Char) (tail : Text)
  /-- What follows the two slashes of a comment, to the end of its line. -/
  | lineComment (tail : Text)
  /-- What follows the opening of a comment, with what closes it. -/
  | blockComment (tail : Text)
  /-- The body of a template literal. -/
  | template (body : Text)
  /-- What follows the backtick of a template literal that is never closed. -/
  | unclosed (tail : Text)
deriving DecidableEq, Repr

/-- The text of a token. -/
def Token.text : Token → Text
  | .code c => [c]
  | .string quote tail => quote :: tail
  | .lineComment tail => '/' :: '/' :: tail
  | .blockComment tail => '/' :: '*' :: tail
  | .template body => '`' :: body ++ ['`']
  | .unclosed tail => '`' :: tail

/-- Read a region to where it closes, or else to the end of the text. -/
def Region.readOn (r : Region) (s : Text) : Text × Text := (Region.close [r] s).getD (s, [])

theorem Region.append_readOn (r : Region) (s : Text) : (r.readOn s).1 ++ (r.readOn s).2 = s := by
  unfold readOn
  cases h : Region.close [r] s with
  | none => simp
  | some p => exact exact_close _ h

/-- What is left after a region is no longer than the text. -/
theorem Region.length_readOn (r : Region) (s : Text) : (r.readOn s).2.length ≤ s.length := by
  have := congrArg List.length (r.append_readOn s)
  rw [List.length_append] at this
  omega

/-- The tokens of a text. -/
def tokens : Text → List Token
  | [] => []
  | '/' :: '/' :: s =>
    .lineComment (Region.lineComment.readOn s).1 :: tokens (Region.lineComment.readOn s).2
  | '/' :: '*' :: s =>
    .blockComment (Region.blockComment.readOn s).1 :: tokens (Region.blockComment.readOn s).2
  | c :: s =>
    if c = '\'' ∨ c = '"' then
      .string c ((Region.string c).readOn s).1 :: tokens ((Region.string c).readOn s).2
    else if c = '`' then
      match _h : Region.close [.template] s with
      | some (body, rest) => .template body.dropLast :: tokens rest
      | none => [.unclosed s]
    else .code c :: tokens s
termination_by s => s.length
decreasing_by
  · have := Region.lineComment.length_readOn s
    simp only [List.length_cons]; omega
  · have := Region.blockComment.length_readOn s
    simp only [List.length_cons]; omega
  · have := (Region.string c).length_readOn s
    simp only [List.length_cons]; omega
  · have := (Region.productive_close_cons .template []).length_lt _h
    simp only [List.length_cons]; omega
  · simp

/-- The tokens make up the text. -/
theorem flatMap_text_tokens (s : Text) : (tokens s).flatMap Token.text = s := by
  fun_induction tokens s with
  | case1 => rfl
  | case2 s ih => simp [Token.text, ih, Region.append_readOn]
  | case3 s ih => simp [Token.text, ih, Region.append_readOn]
  | case4 c s _ _ _ ih => simp [Token.text, ih, Region.append_readOn]
  | case5 s body rest h _ _ _ ih =>
    have last := Region.closesAt_template.dropLast_append [] h
    simp only [List.flatMap_cons, Token.text, ih, ← Region.exact_close _ h]
    simp only [List.cons_append, last]
  | case6 => simp_all [Token.text]
  | case7 c s _ _ _ _ ih => simp [Token.text, ih]

end EmbeddedCss.Host
