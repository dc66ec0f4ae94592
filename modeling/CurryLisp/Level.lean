/-!
# Evaluation levels

How far an expression is reduced. Operands are reduced at the weaker of the level that a function asks
for and the level of the application (`Level.min`).
-/

namespace CurryLisp

/-- How far an expression is reduced. -/
inductive Level where
  /-- Not at all. -/
  | asWritten
  /-- As far as the names known now permit; the rest stays code. -/
  | ahead
  /-- Completely; an unknown name is an error. -/
  | full
  deriving DecidableEq, Repr, Inhabited

namespace Level

/-- The levels in order of strength. -/
def rank : Level → Nat
  | asWritten => 0
  | ahead => 1
  | full => 2

/-- The weaker of two levels. -/
def min (a b : Level) : Level := if a.rank ≤ b.rank then a else b

/-- The name of a level in a trace. -/
def name : Level → String
  | asWritten => "none"
  | ahead => "partial"
  | full => "full"

end Level

end CurryLisp
