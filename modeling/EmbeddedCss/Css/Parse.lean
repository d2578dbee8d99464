import EmbeddedCss.Css.Grammar
import EmbeddedCss.Css.Tree
import EmbeddedCss.Diagnostic

/-! # Reading a stylesheet

A text is read by the grammar and turned into a tree. Where it cannot be read, the error stands at
the furthest place that an attempt reached, and lists what was expected there. -/

namespace EmbeddedCss.Css

/-- A list in words: `A`, `A or B`, `A, B, or C`. -/
def alternatives : List Text → Text
  | [] => []
  | [a] => a
  | [a, b] => a ++ " or ".toList ++ b
  | a :: rest => ((a :: rest).dropLast.map (· ++ ", ".toList)).flatten ++ "or ".toList ++
      (a :: rest).getLast (by simp)

/-- A guess at the cause of an error, from what is left of the text there. -/
def hintFor : Text → Option Text
  | [] => some "a block, string, or comment is not closed".toList
  | '}' :: _ => some "this `\x7d` has no matching `\x7b`".toList
  | _ :: _ => none

/-- The error at a frontier. Each symbol expected there is listed once. -/
def errorAt (text : Text) (frontier : Frontier Symbol) : Diagnostic where
  span := ⟨frontier.offset, frontier.offset + 1⟩
  message := "invalid CSS: expected ".toList ++
    alternatives ((Symbol.all.filter (· ∈ frontier.expected)).map Symbol.name)
  hint := hintFor (Text.dropBytes frontier.offset text)

/-- The concrete syntax of a text, or the error that keeps it from being read. -/
def parseBody (text : Text) : Except Diagnostic Body :=
  let outcome := Grammar.stylesheet text.length ⟨text, 0⟩
  match outcome.result with
  | some (body, _) => .ok body
  | none => .error (errorAt text (.ofTrace outcome.trace))

/-- Read a stylesheet. -/
def parse (text : Text) : Except Diagnostic Root := (parseBody text).map Body.toRoot

end EmbeddedCss.Css
