import ExprLang.Opcode
import ExprLang.Value.StringTable

/-! Chunks: compiled code with the source line of every byte, the constants that the code refers to
and the strings that those refer to. Code is only ever appended, and to a frozen chunk nothing is. -/

namespace ExprLang

/-- A chunk. Its line table may be missing altogether, which counts as an empty one. -/
structure Chunk where
  code : Array UInt8 := #[]
  lineTable : Option (Array Int64) := some #[]
  constants : Array Value := #[]
  strings : StringTable := {}
  frozen : Bool := false
  deriving DecidableEq, Inhabited

inductive ChunkError where
  | frozen
  | tooManyConstants
  deriving DecidableEq, Repr

def ChunkError.message : ChunkError → String
  | frozen => "bytecode: write to frozen chunk"
  | tooManyConstants => "too many constants in one chunk"

namespace Chunk

def poolLimit : Nat := 65536

/-- The source line of every code byte. -/
def lines (c : Chunk) : Array Int64 :=
  c.lineTable.getD #[]

/-- Appends one byte of code. -/
def put : Chunk → UInt8 → Int64 → Chunk
  | ⟨code, lineTable, constants, strings, frozen⟩, b, line =>
    ⟨code.push b, some ((lineTable.getD #[]).push line), constants, strings, frozen⟩

/-- Appends an operand, low byte first. -/
def putOperand (c : Chunk) (operand : UInt16) (line : Int64) : Chunk :=
  (c.put operand.toUInt8 line).put (operand >>> 8).toUInt8 line

def putConstant : Chunk → Value → Chunk
  | ⟨code, lineTable, constants, strings, frozen⟩, v =>
    ⟨code, lineTable, constants.push v, strings, frozen⟩

/-- Appends a constant and the instruction that loads it. -/
def putLoad (c : Chunk) (v : Value) (line : Int64) : Chunk :=
  let index := c.constants.size
  ((c.putConstant v).put Opcode.constant.byte line).putOperand (UInt16.ofNat index) line

/-- The value of a string, in the chunk with the string in its table. -/
def intern : Chunk → Text → Value × Chunk
  | ⟨code, lineTable, constants, strings, frozen⟩, s =>
    let (i, strings) := strings.intern s
    (StringTable.valueAt i, ⟨code, lineTable, constants, strings, frozen⟩)

def freeze (c : Chunk) : Chunk :=
  { c with frozen := true }

/-- Appends one byte of code; the result is its offset. -/
def write (c : Chunk) (b : UInt8) (line : Int64) : Except ChunkError (Nat × Chunk) :=
  if c.frozen then .error .frozen else .ok (c.code.size, c.put b line)

/-- Appends an operand; the result is the offset behind it. -/
def writeOperand (c : Chunk) (operand : UInt16) (line : Int64) : Except ChunkError (Nat × Chunk) :=
  if c.frozen then .error .frozen else .ok (c.code.size + 2, c.putOperand operand line)

/-- Appends a constant without code; the result is its index. -/
def pool (c : Chunk) (v : Value) : Except ChunkError (Nat × Chunk) :=
  if c.frozen then .error .frozen else .ok (c.constants.size, c.putConstant v)

/-- Appends a constant and the instruction that loads it; the result is the offset of the
instruction. A full pool is reported before a frozen chunk is. -/
def writeLoad (c : Chunk) (v : Value) (line : Int64) : Except ChunkError (Nat × Chunk) :=
  if poolLimit ≤ c.constants.size then .error .tooManyConstants
  else if c.frozen then .error .frozen
  else .ok (c.code.size, c.putLoad v line)

/-- The two code bytes at an offset as one number, low byte first. -/
def operandAt? (c : Chunk) (offset : Int) : Option UInt16 :=
  match offset with
  | .negSucc _ => none
  | .ofNat n =>
    match c.code[n]?, c.code[n + 1]? with
    | some low, some high => some (low.toUInt16 + high.toUInt16 * 256)
    | _, _ => none

/-- The source line of the code at an offset, 0 where there is none. -/
def lineOf (c : Chunk) (offset : Int) : Int64 :=
  match offset with
  | .negSucc _ => 0
  | .ofNat n => c.lines[n]?.getD 0

end Chunk

end ExprLang
