import ExprLang.Chunk.Basic

/-! Readable listings of code, one line per instruction, and the number of instructions. Code that
no compiler would produce is listed as far as it goes. -/

namespace ExprLang.Chunk

/-- The operation of the instruction with a given opcode byte, with its operand and what that stands
for, and the offset of the next instruction. -/
def operationAt (c : Chunk) (b : UInt8) (offset : Nat) : Text × Nat :=
  let name := Opcode.nameOfByte b
  let named := name.padRight 16 0x20
  if b = Opcode.constant.byte then
    match c.operandAt? (offset + 1 : Nat) with
    | none => (named ++ utf8 " <truncated>", c.code.size)
    | some index =>
      let numbered := named ++ utf8 " " ++ (Text.ofNat index.toNat).padLeft 4 0x20
      match c.constants[index.toNat]? with
      | none => (numbered ++ utf8 " <missing>", offset + 3)
      | some v => (numbered ++ utf8 " '" ++ c.strings.format v ++ utf8 "'", offset + 3)
  else (name, offset + 1)

/-- The source line of an instruction, or a bar when the byte before it has the same one. -/
def lineColumn (c : Chunk) (offset : Nat) : Text :=
  if offset ≠ 0 && c.lineOf offset = c.lineOf (offset - 1 : Nat) then utf8 "   |"
  else (Text.ofInt (c.lineOf offset).toInt).padLeft 4 0x20

/-- The listing of the instruction at an offset, and the offset of the next one. -/
def instructionAt (c : Chunk) (offset : Int) : Text × Nat :=
  match offset with
  | .negSucc _ => (utf8 "<end of code>", c.code.size)
  | .ofNat n =>
    match c.code[n]? with
    | none => (utf8 "<end of code>", c.code.size)
    | some b =>
      let (operation, next) := c.operationAt b n
      ((Text.ofNat n).padLeft 4 0x30 ++ utf8 " " ++ c.lineColumn n ++ utf8 " " ++ operation, next)

theorem lt_instructionAt (c : Chunk) (n : Nat) (inside : n < c.code.size) :
    n < (c.instructionAt n).2 := by
  have present : c.code[n]? = some c.code[n] := Array.getElem?_eq_getElem inside
  show n < (c.instructionAt (.ofNat n)).2
  simp only [instructionAt, present, operationAt]
  split
  · split
    · exact inside
    · split <;> simp
  · simp

/-- Appends the listing from an offset on. -/
def listingInto (c : Chunk) (listed : Array Text) (offset : Nat) : Array Text :=
  if offset < c.code.size then
    match _same : c.instructionAt offset with
    | (line, next) => listingInto c (listed.push line) next
  else listed
termination_by c.code.size - offset
decreasing_by
  have further := lt_instructionAt c offset (by assumption)
  rw [_same] at further
  omega

/-- The listing of a chunk, one line per instruction. -/
def listing (c : Chunk) : List Text :=
  (c.listingInto #[] 0).toList

/-- The listing as one text, under a heading if it has a name. -/
def listingText (c : Chunk) (name : Text) : Text :=
  let heading := if name.isEmpty then [] else utf8 "== " ++ name ++ utf8 " ==\n"
  heading ++ Text.lines c.listing

/-- Adds the number of instructions from an offset on. An instruction ends where the instruction
set says, even if the code ends before. -/
def countFrom (c : Chunk) (counted offset : Nat) : Nat :=
  if inside : offset < c.code.size then
    countFrom c (counted + 1) (offset + Opcode.lengthOfByte c.code[offset])
  else counted
termination_by c.code.size - offset
decreasing_by
  simp only [Opcode.lengthOfByte]
  omega

def countInstructions (c : Chunk) : Nat :=
  c.countFrom 0 0

end ExprLang.Chunk
