import ExprLang.Opcode
import ExprLang.Value.Basic

/-! Why execution stops short of a result. -/

namespace ExprLang

inductive Fault where
  | stackOverflow (capacity : Nat)
  | stackUnderflow
  | unknownOpcode (byte : UInt8)
  | notNumber (kind : ValueKind)
  | unlikeOperands (left right : ValueKind)
  | divisionByZero
  | noChunk
  | lineCount (code lines : Nat)
  | truncatedOperand
  | constantOutOfRange (index : Nat)
  | endOfCode
  deriving DecidableEq, Repr

namespace Fault

/-- The class of a fault. -/
def cause : Fault → String
  | stackOverflow _ => "stack overflow"
  | stackUnderflow => "stack underflow"
  | unknownOpcode _ => "unknown opcode"
  | notNumber _ | unlikeOperands _ _ => "operand type mismatch"
  | divisionByZero => "division by zero"
  | noChunk | lineCount _ _ | truncatedOperand | constantOutOfRange _ | endOfCode =>
    "malformed chunk"

/-- What a fault says beyond its class. -/
def detail : Fault → Text
  | stackOverflow capacity => utf8 ": capacity " ++ Text.ofNat capacity
  | stackUnderflow | divisionByZero => []
  | unknownOpcode byte => utf8 ": byte 0x" ++ Opcode.hexByte byte
  | notNumber kind => utf8 ": operand must be a number, got " ++ utf8 kind.name
  | unlikeOperands left right =>
    utf8 ": operands must be two numbers of the same kind, got " ++ utf8 left.name ++
      utf8 " and " ++ utf8 right.name
  | noChunk => utf8 ": nil chunk"
  | lineCount code lines =>
    utf8 ": " ++ Text.ofNat code ++ utf8 " code bytes but " ++ Text.ofNat lines ++
      utf8 " line entries"
  | truncatedOperand => utf8 ": truncated operand"
  | constantOutOfRange index =>
    utf8 ": constant index " ++ Text.ofNat index ++ utf8 " out of range"
  | endOfCode => utf8 ": reached end of code without " ++ utf8 Opcode.ret.name

def message (f : Fault) : Text :=
  utf8 f.cause ++ f.detail

end Fault

/-- A fault with the place where it stopped execution. -/
structure RuntimeError where
  offset : Nat
  line : Int64
  byte : UInt8
  fault : Fault
  deriving DecidableEq, Repr

def RuntimeError.message (e : RuntimeError) : Text :=
  utf8 "[line " ++ Text.ofInt e.line.toInt ++ utf8 "] runtime error at " ++
    Opcode.nameOfByte e.byte ++ utf8 ": " ++ e.fault.message

end ExprLang
