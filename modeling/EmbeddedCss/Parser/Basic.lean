import EmbeddedCss.Parser.Scanner
import EmbeddedCss.Parser.Trace

/-! # Parsers with a trace

A parser reads a value from where a cursor stands. Besides the value it gives the trace of the
named things it tried. The trace grows along every path, so that an alternative that was given up
still explains an error; the value never depends on it. -/

namespace EmbeddedCss

/-- A place in a text: what is left to read, and how many bytes were read. -/
@[ext]
structure Cursor where
  /-- What is left to read. -/
  rest : Text
  /-- How many bytes were read. -/
  offset : Nat := 0
deriving DecidableEq, Repr

/-- What a parser gives back. -/
@[ext]
structure Outcome (σ α : Type) where
  /-- The value read and the place after it, if the parser matched. -/
  result : Option (α × Cursor)
  /-- The named things that were tried. -/
  trace : List (Attempt σ) := []

/-- Reads an `α` from where a cursor stands, and traces attempts named by `σ`. -/
def Parser (σ α : Type) := Cursor → Outcome σ α

namespace Parser

variable {σ α β : Type}

/-- A value is read from nothing; of two parsers in a row the second starts where the first
stopped. -/
instance : Monad (Parser σ) where
  pure a := fun c ↦ ⟨some (a, c), []⟩
  bind p f := fun c ↦
    let o := p c
    match o.result with
    | none => ⟨none, o.trace⟩
    | some (a, c') => let o' := f a c'; ⟨o'.result, o.trace ++ o'.trace⟩

/-- The parser that never matches. -/
def fail : Parser σ α := fun _ ↦ ⟨none, []⟩

/-- The first alternative, or else the second from the same place. -/
def orElse (p q : Parser σ α) : Parser σ α := fun c ↦
  let o := p c
  match o.result with
  | none => let o' := q c; ⟨o'.result, o.trace ++ o'.trace⟩
  | some _ => o

/-- A value where there is one. -/
def optional (p : Parser σ α) : Parser σ (Option α) := orElse (some <$> p) (pure none)

/-- What a scanner reads. -/
def lexeme (a : Scanner) : Parser σ Text := fun c ↦
  ⟨(a c.rest).map fun p ↦ (p.1, ⟨p.2, c.offset + Text.size p.1⟩), []⟩

/-- One given character. -/
def char (c : Char) : Parser σ Unit := do discard <| lexeme (Scanner.char (· == c))

/-- Matches, without reading anything, where what is left passes a test. -/
def ahead (test : Text → Bool) : Parser σ Unit := fun c ↦
  ⟨if test c.rest then some ((), c) else none, []⟩

/-- Trace a parser as an attempt at `symbol`. -/
def named (symbol : σ) (p : Parser σ α) : Parser σ α := fun c ↦
  let o := p c
  ⟨o.result, [.mk symbol c.offset o.result.isSome o.trace]⟩

/-- What a scanner reads, traced as an attempt at `symbol`. -/
def token (symbol : σ) (a : Scanner) : Parser σ Text := named symbol (lexeme a)

/-! ## Values

What each combinator does to the value, without the trace. -/

/-- The value that a parser reads. -/
def value (p : Parser σ α) (c : Cursor) : Option (α × Cursor) := (p c).result

@[simp] theorem value_pure (a : α) (c : Cursor) :
    value (pure a : Parser σ α) c = some (a, c) := rfl

@[simp] theorem value_fail (c : Cursor) : value (fail : Parser σ α) c = none := rfl

@[simp] theorem value_bind (p : Parser σ α) (f : α → Parser σ β) (c : Cursor) :
    value (p >>= f) c = (value p c).bind fun r ↦ value (f r.1) r.2 := by
  simp only [value, bind]
  split <;> simp_all

@[simp] theorem value_orElse (p q : Parser σ α) (c : Cursor) :
    value (orElse p q) c = (value p c).or (value q c) := by
  simp only [value, orElse]
  split <;> simp_all

@[simp] theorem value_lexeme (a : Scanner) (c : Cursor) : value (lexeme a : Parser σ Text) c =
    (a c.rest).map fun p ↦ (p.1, ⟨p.2, c.offset + Text.size p.1⟩) := rfl

@[simp] theorem value_ahead (test : Text → Bool) (c : Cursor) :
    value (ahead test : Parser σ Unit) c = if test c.rest then some ((), c) else none := rfl

@[simp] theorem value_named (symbol : σ) (p : Parser σ α) (c : Cursor) :
    value (named symbol p) c = value p c := rfl

@[simp] theorem value_token (symbol : σ) (a : Scanner) (c : Cursor) : value (token symbol a) c =
    (a c.rest).map fun p ↦ (p.1, ⟨p.2, c.offset + Text.size p.1⟩) := rfl

end Parser

end EmbeddedCss
