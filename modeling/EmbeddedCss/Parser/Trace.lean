/-! # Traces of a parse

A parser tries named things at offsets, and most attempts fail. The trace keeps every attempt in
the order in which it was made, those inside it included, whether or not the parser went another
way later. An error is then computed from the trace: it names what could have stood at the furthest
place where an attempt failed.

Where an attempt fails and exactly one attempt inside it was blamed at the same place, the inner
one is the better explanation and the outer one is not named. -/

namespace EmbeddedCss

/-- An attempt to read something named `symbol` at `offset`. -/
inductive Attempt (σ : Type) where
  | mk (symbol : σ) (offset : Nat) (matched : Bool) (inner : List (Attempt σ))

/-- The furthest place where an attempt failed so far, and what was expected there. -/
structure Frontier (σ : Type) where
  /-- The furthest place. -/
  offset : Nat := 0
  /-- What was expected there, in the order in which it was tried. -/
  expected : List σ := []

variable {σ : Type}

namespace Frontier

/-- How many things are known to be expected at `offset`. -/
def countAt (f : Frontier σ) (offset : Nat) : Nat :=
  if offset = f.offset then f.expected.length else 0

/-- Blame a failure at `offset` on `symbol`, in place of what was blamed there after the first
`before` symbols. A failure behind the frontier changes nothing. -/
def blame (f : Frontier σ) (symbol : σ) (offset before : Nat) : Frontier σ :=
  if f.offset < offset then ⟨offset, [symbol]⟩
  else if f.offset = offset then ⟨offset, f.expected.take before ++ [symbol]⟩
  else f

end Frontier

mutual

/-- The frontier after an attempt. -/
def Attempt.replay : Attempt σ → Frontier σ → Frontier σ
  | .mk symbol offset matched inner, f =>
    let g := Attempt.replayAll inner f
    if matched || g.countAt offset == f.countAt offset + 1 then g
    else g.blame symbol offset (f.countAt offset)

/-- The frontier after one attempt after the other. -/
def Attempt.replayAll : List (Attempt σ) → Frontier σ → Frontier σ
  | [], f => f
  | a :: rest, f => Attempt.replayAll rest (a.replay f)

end

/-- The frontier of a whole parse. -/
def Frontier.ofTrace (trace : List (Attempt σ)) : Frontier σ := Attempt.replayAll trace {}

end EmbeddedCss
