import ExprLang.Program.Parser

/-! Code generation. An expression becomes the code of its operands followed by its operator. Each
statement but the last is followed by an instruction that drops its value; the value of the last
one, or nil for want of any, is the result. -/

namespace ExprLang

/-- An instruction with its source line: an opcode without operand, or a literal to load. -/
inductive Instr where
  | op (op : Opcode) (line : Nat)
  | load (l : Literal) (line : Nat)
  deriving DecidableEq, Repr

def UnaryOp.opcode : UnaryOp → Opcode
  | negate => .negate
  | not => .not

/-- The opcodes of an operator. Three comparisons are the negation of another one. -/
def BinaryOp.opcodes : BinaryOp → List Opcode
  | add => [.add]
  | subtract => [.subtract]
  | multiply => [.multiply]
  | divide => [.divide]
  | equal => [.equal]
  | notEqual => [.equal, .not]
  | greater => [.greater]
  | greaterEqual => [.less, .not]
  | less => [.less]
  | lessEqual => [.greater, .not]

def Literal.instr (line : Nat) : Literal → Instr
  | nil => .op .pushNil line
  | bool b => .op (if b then .pushTrue else .pushFalse) line
  | l => .load l line

/-- The code of an expression, followed by more code. -/
def Expr.code : Expr → List Instr → List Instr
  | literal l line, more => l.instr line :: more
  | unary op line operand, more => operand.code (.op op.opcode line :: more)
  | binary op line left right, more =>
    left.code (right.code (op.opcodes.map (Instr.op · line) ++ more))

namespace Program

/-- The code of statements, or nothing if there are none. -/
def codeOf? (statements : List Statement) (last : List Instr) : Option (List Instr) :=
  statements.foldr (fun s more? =>
    some (s.expr.code (match more? with
      | some more => .op .pop s.endLine :: more
      | none => last))) none

def code (p : Program) : List Instr :=
  let last := [Instr.op .ret p.endLine]
  (codeOf? p.statements last).getD (.op .pushNil p.endLine :: last)

end Program

namespace Chunk

/-- Appends one instruction. -/
def append (c : Chunk) : Instr → Chunk
  | .op op line => c.put op.byte (Int64.ofNat line)
  | .load l line =>
    match l with
    | .integer n => c.putLoad (.integer n) (Int64.ofNat line)
    | .double word => c.putLoad (.double word) (Int64.ofNat line)
    | .string s =>
      let (v, c) := c.intern s
      c.putLoad v (Int64.ofNat line)
    | .bool b => c.putLoad (.bool b) (Int64.ofNat line)
    | .nil => c.putLoad .nil (Int64.ofNat line)

def ofCode (code : List Instr) : Chunk :=
  code.foldl append {}

end Chunk

/-- Compiles a program, or tells what is wrong with it. -/
def compile (source : Text) : Except (List Diagnostic) Chunk :=
  (Program.parse source).map fun p => Chunk.ofCode p.code

end ExprLang
