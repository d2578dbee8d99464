import EmbeddedCss.Host.Token
import EmbeddedCss.Options.Basic
import EmbeddedCss.Template.Split
import EmbeddedCss.Text.Blank

/-! # Finding stylesheets in host code

A template literal holds a stylesheet if the word in front of it is one of the tags asked for.
Comments can turn a whole file off, or the literals whose tag starts on the next line. -/

namespace EmbeddedCss.Host

/-- A template literal with a tag. -/
@[ext]
structure Tagged where
  /-- The tag, without the dots around it. -/
  tag : Text
  /-- The span of the word in front of the literal. -/
  wordSpan : Span
  /-- The span of the body, without the backticks. -/
  content : Span
  /-- The body. -/
  template : Template
deriving DecidableEq, Repr

/-! ## Tags -/

/-- A character of the word in front of a template literal. -/
def isTagChar (c : Char) : Bool := Options.isIdentifierChar c || c == '.'

/-- A text without the dots around it. -/
def trimDots (t : Text) : Text :=
  ((t.dropWhile (· == '.')).reverse.dropWhile (· == '.')).reverse

/-- The word at the end of a text, white space after it left out. The text is given from its end
to its start, and so is what stands in front of the word. -/
def lastWord (seen : Text) : Text × Text :=
  let seen := seen.dropWhile Text.isSpace
  ((seen.takeWhile isTagChar).reverse, seen.dropWhile isTagChar)

/-- The line, from one, on which a text ends. -/
def lineAfter (seen : Text) : Nat := 1 + seen.count '\n'

/-! ## Comments that turn things off -/

/-- What a comment says that turns the file off. -/
def fileOff : Text := "csslit-disable".toList

/-- What a comment says that turns the next line off. -/
def nextLineOff : Text := "csslit-disable-next-line".toList

/-- What a block comment says, from what follows its opening. -/
def commentText (tail : Text) : Text :=
  Text.trim (if ['*', '/'].isSuffixOf tail then tail.dropLast.dropLast else tail)

/-- Whether a token turns the file off. Only a block comment can. -/
def Token.disablesFile : Token → Bool
  | .blockComment tail => commentText tail == fileOff
  | _ => false

/-- The line that a token turns off, after the text `seen` that is given from its end to its start.
A line comment counts from the line it starts on, a block comment from the line it ends on. -/
def Token.disabledLine (seen : Text) : Token → Option Nat
  | .lineComment tail => if Text.trim tail = nextLineOff then some (lineAfter seen + 1) else none
  | .blockComment tail =>
    if commentText tail = nextLineOff then some (lineAfter (tail.reverse ++ seen) + 1) else none
  | _ => none

/-! ## The scan -/

/-- The error for a literal that follows `offset` bytes and is never closed. An interpolation in it
that is not closed either is to blame first. -/
def unclosedError (offset : Nat) (tail : Text) : TemplateError :=
  let stop := offset + 1 + Text.size tail
  match Template.split tail with
  | .error before => .unclosedInterpolation ⟨offset + 1 + Text.size before, stop⟩
  | .ok _ => .unclosedTemplate ⟨offset, stop⟩

/-- The tagged literals among some tokens, after the text `seen` that is given from its end to its
start. Of the lines turned off, only the one named last is remembered. -/
def collect (o : Options) (seen : Text) (off : Option Nat) :
    List Token → Except TemplateError (List Tagged)
  | [] => .ok []
  | .unclosed tail :: _ => .error (unclosedError (Text.size seen) tail)
  | .template body :: rest => do
    let later ← collect o ((Token.template body).text.reverse ++ seen) off rest
    let (word, before) := lastWord seen
    let tag := trimDots word
    if tag.isEmpty || !o.selects tag || off == some (lineAfter before) then return later
    let start := Text.size before
    let content := Text.size seen + 1
    return { tag
             wordSpan := ⟨start, start + Text.size word⟩
             content := ⟨content, content + Text.size body⟩
             template := ← Template.ofText body } :: later
  | token :: rest =>
    let named := if o.disableComments then token.disabledLine seen else none
    collect o (token.text.reverse ++ seen) (named.or off) rest

/-- The tagged template literals of a file, in order. A comment that turns the file off also hides
every error in it. -/
def scan (o : Options) (source : Text) : Except TemplateError (List Tagged) :=
  let ts := tokens source
  if o.disableComments && ts.any Token.disablesFile then .ok [] else collect o [] none ts

end EmbeddedCss.Host
