import ExprLang.Program.Parser

/-! The meaning of programs, told on their trees without code or stack. A result is a literal, so
that a string is its text. The stack need of a program tells how many operands its code holds at
once. -/

namespace ExprLang

/-- Why an operator has no result for its operands. -/
inductive EvalFault where
  | unlikeOperands
  | divisionByZero
  deriving DecidableEq, Repr

/-- A fault of the operator on a line. -/
structure EvalError where
  line : Nat
  fault : EvalFault
  deriving DecidableEq, Repr

namespace Literal

/-- Equality of kinds and payloads, except that doubles compare as numbers. -/
def same : Literal → Literal → Bool
  | double a, double b => Float.ofBits a == Float.ofBits b
  | a, b => a = b

def arithmetic (onIntegers : Int64 → Int64 → Int64) (onDoubles : Float → Float → Float) :
    Literal → Literal → Except EvalFault Literal
  | integer a, integer b => .ok (integer (onIntegers a b))
  | double a, double b => .ok (double (onDoubles (Float.ofBits a) (Float.ofBits b)).toBits)
  | _, _ => .error .unlikeOperands

/-- Integer quotients are rounded towards zero. -/
def quotient : Literal → Literal → Except EvalFault Literal
  | integer _, integer 0 => .error .divisionByZero
  | a, b => arithmetic (· / ·) (· / ·) a b

def below : Literal → Literal → Except EvalFault Bool
  | integer a, integer b => .ok (a < b)
  | double a, double b => .ok (Float.ofBits a < Float.ofBits b)
  | _, _ => .error .unlikeOperands

end Literal

def UnaryOp.apply : UnaryOp → Literal → Except EvalFault Literal
  | negate, .integer n => .ok (.integer (-n))
  | negate, .double w => .ok (.double (-(Float.ofBits w)).toBits)
  | negate, _ => .error .unlikeOperands
  | not, v => .ok (.bool (v = .nil || v = .bool false))

/-- Two of the comparisons deny the opposite one, which differs from their own relation on NaN. -/
def BinaryOp.apply : BinaryOp → Literal → Literal → Except EvalFault Literal
  | add, a, b => a.arithmetic (· + ·) (· + ·) b
  | subtract, a, b => a.arithmetic (· - ·) (· - ·) b
  | multiply, a, b => a.arithmetic (· * ·) (· * ·) b
  | divide, a, b => a.quotient b
  | equal, a, b => .ok (.bool (a.same b))
  | notEqual, a, b => .ok (.bool (!a.same b))
  | less, a, b => (a.below b).map .bool
  | greater, a, b => (b.below a).map .bool
  | greaterEqual, a, b => (a.below b).map fun holds => .bool (!holds)
  | lessEqual, a, b => (b.below a).map fun holds => .bool (!holds)

namespace Expr

/-- The value of an expression. Operands come before their operator, the left one first. -/
def eval : Expr → Except EvalError Literal
  | literal l _ => .ok l
  | unary op line operand =>
    match operand.eval with
    | .error e => .error e
    | .ok a => (op.apply a).mapError (EvalError.mk line)
  | binary op line left right =>
    match left.eval with
    | .error e => .error e
    | .ok a =>
      match right.eval with
      | .error e => .error e
      | .ok b => (op.apply a b).mapError (EvalError.mk line)

/-- How many operands wait at most while an expression is evaluated, its value included. -/
def stackNeed : Expr → Nat
  | literal _ _ => 1
  | unary _ _ operand => operand.stackNeed
  | binary _ _ left right => max left.stackNeed (1 + right.stackNeed)

end Expr

namespace Program

/-- Evaluates statements in order. The last value stands for them all. -/
def evalFrom (last : Literal) : List Statement → Except EvalError Literal
  | [] => .ok last
  | s :: more =>
    match s.expr.eval with
    | .error e => .error e
    | .ok v => evalFrom v more

/-- The value of a program: that of its last statement, or nil if it has none. -/
def eval (p : Program) : Except EvalError Literal :=
  evalFrom .nil p.statements

/-- Even a program without statements has a value to hold. -/
def stackNeed (p : Program) : Nat :=
  p.statements.foldr (fun s need => max s.expr.stackNeed need) 1

end Program

end ExprLang
