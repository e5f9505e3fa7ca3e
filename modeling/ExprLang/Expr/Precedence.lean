/-! Binding strengths. A stronger operator has a higher level. -/

namespace ExprLang

structure Precedence where
  level : Int
  deriving DecidableEq, Repr

namespace Precedence

def none : Precedence := ⟨0⟩
def assignment : Precedence := ⟨1⟩
def equality : Precedence := ⟨4⟩
def comparison : Precedence := ⟨5⟩
def term : Precedence := ⟨6⟩
def factor : Precedence := ⟨8⟩
def unary : Precedence := ⟨9⟩
def primary : Precedence := ⟨13⟩

/-- The names of the levels from the weakest on. -/
def names : List String := [
  "none", "assignment", "or", "and", "equality", "comparison", "term", "incr", "factor", "unary",
  "call", "array", "index", "primary"]

def name (p : Precedence) : String :=
  let unnamed := "Precedence(" ++ toString p.level ++ ")"
  if p.level < 0 then unnamed else names[p.level.toNat]?.getD unnamed

/-- The next stronger level. Nothing binds more strongly than `primary`. -/
def next (p : Precedence) : Precedence :=
  if primary.level ≤ p.level then primary else ⟨p.level + 1⟩

end Precedence

end ExprLang
