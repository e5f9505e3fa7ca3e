import ExprLang.Expr.Precedence
import ExprLang.Text.Basic
import ExprLang.Token.Basic

/-! Expressions as trees. Every node keeps the source line of its own token: the literal or the
operator. -/

namespace ExprLang

inductive UnaryOp where
  | negate | not
  deriving DecidableEq, Repr

inductive BinaryOp where
  | add | subtract | multiply | divide | equal | notEqual | greater | greaterEqual | less | lessEqual
  deriving DecidableEq, Repr

inductive Literal where
  | nil
  | bool (b : Bool)
  | integer (n : Int64)
  | double (word : UInt64)
  | string (s : Text)
  deriving DecidableEq, Repr

inductive Expr where
  | literal (l : Literal) (line : Nat)
  | unary (op : UnaryOp) (line : Nat) (operand : Expr)
  | binary (op : BinaryOp) (line : Nat) (left right : Expr)
  deriving DecidableEq, Repr

namespace BinaryOp

def ofKind? : TokenKind → Option BinaryOp
  | .plus => some add
  | .minus => some subtract
  | .star => some multiply
  | .slash => some divide
  | .equalEqual => some equal
  | .bangEqual => some notEqual
  | .greater => some greater
  | .greaterEqual => some greaterEqual
  | .less => some less
  | .lessEqual => some lessEqual
  | _ => none

def precedence : BinaryOp → Precedence
  | add | subtract => .term
  | multiply | divide => .factor
  | equal | notEqual => .equality
  | greater | greaterEqual | less | lessEqual => .comparison

end BinaryOp

/-- What a token that begins an operand makes of it. -/
inductive Lead where
  | group
  | unary (op : UnaryOp)
  | literal
  deriving DecidableEq, Repr

def Lead.ofKind? : TokenKind → Option Lead
  | .leftParen => some group
  | .minus => some (unary .negate)
  | .bang => some (unary .not)
  | .string | .integer | .double | .falseWord | .nilWord | .trueWord => some literal
  | _ => none

/-- How strongly a token binds the operands on its two sides. -/
def TokenKind.precedence (k : TokenKind) : Precedence :=
  match BinaryOp.ofKind? k with
  | some op => op.precedence
  | none => .none

/-- Literals that are kept in the constant pool. -/
def Literal.isPooled : Literal → Bool
  | integer _ | double _ | string _ => true
  | nil | bool _ => false

end ExprLang
