import ExprLang.Program.Parser

/-! The grammar of programs, one layer for each strength of operators. It relates tokens to the
trees that they spell and says nothing about how to find these. -/

namespace ExprLang

/-- The layers of the grammar, from the loosest operators to the operands. -/
inductive Layer where
  | equality | comparison | term | factor | unary | primary
  deriving DecidableEq, Repr

/-- The operators that stand between the operands of a layer. -/
def BinaryOp.layer : BinaryOp → Layer
  | equal | notEqual => .equality
  | greater | greaterEqual | less | lessEqual => .comparison
  | add | subtract => .term
  | multiply | divide => .factor

/-- How an operator between two operands is written. -/
def BinaryOp.sign : BinaryOp → TokenKind
  | add => .plus
  | subtract => .minus
  | multiply => .star
  | divide => .slash
  | equal => .equalEqual
  | notEqual => .bangEqual
  | greater => .greater
  | greaterEqual => .greaterEqual
  | less => .less
  | lessEqual => .lessEqual

/-- How an operator before its operand is written. -/
def UnaryOp.sign : UnaryOp → TokenKind
  | negate => .minus
  | not => .bang

/-- The tokens that are operands by themselves. -/
def TokenKind.literals : List TokenKind :=
  [.nilWord, .trueWord, .falseWord, .integer, .double, .string]

namespace Layer

/-- The next tighter layer. -/
def next : Layer → Layer
  | equality => comparison
  | comparison => term
  | term => factor
  | factor => unary
  | unary | primary => primary

end Layer

/-- A number in decimal notation as an exact quotient. -/
def Text.decimal (t : Text) : Nat × Nat :=
  let whole := t.takeWhile isDigit
  let fraction := t.drop (whole.length + 1)
  (toNat (whole ++ fraction), Nat.pow 10 fraction.length)

/-- The text between the quotes of a string token. -/
def Token.quoted (t : Token) : Text :=
  (t.lexeme.drop 1).dropLast

/-- What a literal token denotes, if it is not out of range. -/
def Literal.denoted (t : Token) : Literal :=
  match t.kind with
  | .trueWord => bool true
  | .falseWord => bool false
  | .integer => integer (Int64.ofNat t.lexeme.toNat)
  | .double => double ((Binary64.ofRatio? t.lexeme.decimal.1 t.lexeme.decimal.2).getD 0)
  | .string => string t.quoted
  | _ => nil

/-- Tokens that spell an expression of a layer. Operators of one layer group to the left, and
parentheses leave no trace in the tree. -/
inductive Expr.Spelt : Layer → List Token → Expr → Prop
  | literal {t : Token} :
      t.kind ∈ TokenKind.literals →
      Spelt .primary [t] (.literal (Literal.denoted t) t.line)
  | group {opening closing : Token} {ts : List Token} {e : Expr} :
      opening.kind = .leftParen → closing.kind = .rightParen →
      Spelt .equality ts e → Spelt .primary (opening :: ts ++ [closing]) e
  | unary {t : Token} {op : UnaryOp} {ts : List Token} {e : Expr} :
      t.kind = op.sign →
      Spelt .unary ts e → Spelt .unary (t :: ts) (.unary op t.line e)
  | binary {t : Token} {op : BinaryOp} {ls rs : List Token} {l r : Expr} :
      t.kind = op.sign →
      Spelt op.layer ls l → Spelt op.layer.next rs r →
      Spelt op.layer (ls ++ t :: rs) (.binary op t.line l r)
  | tighter {layer : Layer} {ts : List Token} {e : Expr} :
      Spelt layer.next ts e → Spelt layer ts e

/-- Tokens that spell statements. A semicolon ends a statement, and the last one may do without. -/
inductive Statement.Spelt : List Token → List Statement → Prop
  | none : Spelt [] []
  | last {ts : List Token} {t : Token} {e : Expr} :
      Expr.Spelt .equality (ts ++ [t]) e → Spelt (ts ++ [t]) [⟨e, t.line⟩]
  | more {ts rest : List Token} {t : Token} {e : Expr} {others : List Statement} :
      Expr.Spelt .equality ts e → t.kind = .semicolon → Spelt rest others →
      Spelt (ts ++ t :: rest) (⟨e, t.line⟩ :: others)

/-- Tokens that spell a program, with the end token behind them. -/
def Program.Spelt (tokens : List Token) (p : Program) : Prop :=
  ∃ ts ending, tokens = ts ++ [ending] ∧ ending.kind = .eof ∧ ending.line = p.endLine ∧
    Statement.Spelt ts p.statements

end ExprLang
