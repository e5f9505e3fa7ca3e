import ExprLang.Text.Basic

/-! The instruction set. An instruction is an opcode byte, and its operand bytes where it has some. -/

namespace ExprLang

inductive Opcode where
  | constant | ret | negate | add | subtract | multiply | divide | pushNil | pushTrue | pushFalse
  | greater | equal | less | not | pop
  deriving DecidableEq, Repr, Inhabited

namespace Opcode

/-- What the instruction set says about one opcode. -/
structure Info where
  byte : UInt8
  name : String
  pops : Nat
  pushes : Nat
  operandLength : Nat := 0

def info : Opcode → Info
  | constant => { byte := 0x01, name := "OP_CONSTANT", pops := 0, pushes := 1, operandLength := 2 }
  | ret => { byte := 0x02, name := "OP_RETURN", pops := 1, pushes := 0 }
  | negate => { byte := 0x03, name := "OP_NEGATE", pops := 1, pushes := 1 }
  | add => { byte := 0x04, name := "OP_ADD", pops := 2, pushes := 1 }
  | subtract => { byte := 0x05, name := "OP_SUBTRACT", pops := 2, pushes := 1 }
  | multiply => { byte := 0x06, name := "OP_MULTIPLY", pops := 2, pushes := 1 }
  | divide => { byte := 0x07, name := "OP_DIVIDE", pops := 2, pushes := 1 }
  | pushNil => { byte := 0x08, name := "OP_NIL", pops := 0, pushes := 1 }
  | pushTrue => { byte := 0x09, name := "OP_TRUE", pops := 0, pushes := 1 }
  | pushFalse => { byte := 0x0A, name := "OP_FALSE", pops := 0, pushes := 1 }
  | greater => { byte := 0x0B, name := "OP_GREATER", pops := 2, pushes := 1 }
  | equal => { byte := 0x0C, name := "OP_EQUAL", pops := 2, pushes := 1 }
  | less => { byte := 0x0D, name := "OP_LESS", pops := 2, pushes := 1 }
  | not => { byte := 0x0E, name := "OP_NOT", pops := 1, pushes := 1 }
  | pop => { byte := 0x10, name := "OP_POP", pops := 1, pushes := 0 }

/-- All opcodes in ascending order of their bytes. -/
def all : List Opcode := [
  constant, ret, negate, add, subtract, multiply, divide, pushNil, pushTrue, pushFalse,
  greater, equal, less, not, pop]

def byte (op : Opcode) : UInt8 :=
  op.info.byte

def name (op : Opcode) : String :=
  op.info.name

def ofByte? (b : UInt8) : Option Opcode :=
  all.find? fun op => op.byte = b

/-- Two upper-case hexadecimal digits. -/
def hexByte (b : UInt8) : Text :=
  Text.upper (Text.hex 2 b.toNat)

/-- The name of the opcode with a given byte, or the byte itself when there is none. -/
def nameOfByte (b : UInt8) : Text :=
  match ofByte? b with
  | some op => utf8 op.name
  | none => utf8 "UNKNOWN(0x" ++ hexByte b ++ utf8 ")"

/-- A byte that is no opcode is an instruction by itself. -/
def lengthOfByte (b : UInt8) : Nat :=
  1 + ((ofByte? b).map fun op => op.info.operandLength).getD 0

end Opcode

end ExprLang
