import EmbeddedCss.Span

/-! # Errors of templates

What can be wrong with a template literal before its content is looked at. -/

namespace EmbeddedCss

/-- A template literal that cannot be taken apart or put together. -/
inductive TemplateError where
  /-- The literal opened at the start of the span is never closed. -/
  | unclosedTemplate (span : Span)
  /-- The interpolation opened at the start of the span is never closed. -/
  | unclosedInterpolation (span : Span)
  /-- The numbers of literals and interpolations do not go together. -/
  | mismatch (literals interpolations : Nat)
deriving DecidableEq, Repr

namespace TemplateError

/-- The stretch of text that is to blame, from what was opened to the end of the text. -/
def span : TemplateError → Span
  | .unclosedTemplate s | .unclosedInterpolation s => s
  | .mismatch .. => {}

/-- The error in words. -/
def message : TemplateError → Text
  | .unclosedTemplate _ => "unterminated template literal".toList
  | .unclosedInterpolation _ => "unterminated `$\x7b` interpolation".toList
  | .mismatch literals interpolations =>
    "template has ".toList ++ Text.ofNat literals ++ " literal segments for ".toList ++
      Text.ofNat interpolations ++ " expressions".toList

end TemplateError

end EmbeddedCss
