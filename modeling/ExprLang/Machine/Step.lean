import ExprLang.Chunk.Listing
import ExprLang.Machine.Fault
import ExprLang.Machine.Stack

/-! One instruction at a time. An instruction that fails has already taken its operands from the
stack. -/

namespace ExprLang

/-- The stack after an instruction, and the fault if it failed. -/
structure Effect where
  stack : Stack
  fault? : Option Fault := none

namespace Stack

def push (capacity : Nat) (v : Value) (stack : Stack) : Effect :=
  if stack.size < capacity then { stack := stack.put v }
  else { stack, fault? := some (.stackOverflow capacity) }

/-- Replaces the top value by a function of it. -/
def unary (capacity : Nat) (f : Value → Except Fault Value) (stack : Stack) : Effect :=
  match stack.back? with
  | none => { stack, fault? := some .stackUnderflow }
  | some a =>
    match f a with
    | .error fault => { stack := stack.pop, fault? := some fault }
    | .ok v => push capacity v stack.pop

/-- Replaces the two top values, of which the right operand is the upper one, by a function of
them. -/
def binary (capacity : Nat) (f : Value → Value → Except Fault Value) (stack : Stack) : Effect :=
  match stack.back? with
  | none => { stack, fault? := some .stackUnderflow }
  | some b =>
    let stack := stack.pop
    match stack.back? with
    | none => { stack, fault? := some .stackUnderflow }
    | some a =>
      match f a b with
      | .error fault => { stack := stack.pop, fault? := some fault }
      | .ok v => push capacity v stack.pop

def drop (stack : Stack) : Effect :=
  match stack.back? with
  | none => { stack, fault? := some .stackUnderflow }
  | some _ => { stack := stack.pop }

end Stack

namespace Value

def negate : Value → Except Fault Value
  | integer n => .ok (integer (-n))
  | double w => .ok (double (-(Float.ofBits w)).toBits)
  | v => .error (.notNumber v.kind)

/-- Arithmetic on two integers or on two doubles. Integers wrap around. -/
def arithmetic (onIntegers : Int64 → Int64 → Except Fault Int64) (onDoubles : Float → Float → Float) :
    Value → Value → Except Fault Value
  | integer a, integer b => (onIntegers a b).map integer
  | double a, double b => .ok (double (onDoubles (Float.ofBits a) (Float.ofBits b)).toBits)
  | a, b => .error (.unlikeOperands a.kind b.kind)

def add : Value → Value → Except Fault Value :=
  arithmetic (fun a b => .ok (a + b)) (fun a b => a + b)

def subtract : Value → Value → Except Fault Value :=
  arithmetic (fun a b => .ok (a - b)) (fun a b => a - b)

def multiply : Value → Value → Except Fault Value :=
  arithmetic (fun a b => .ok (a * b)) (fun a b => a * b)

/-- Integer quotients are rounded towards zero. -/
def divide : Value → Value → Except Fault Value :=
  arithmetic (fun a b => if b = 0 then .error .divisionByZero else .ok (a / b)) (fun a b => a / b)

def less : Value → Value → Except Fault Value
  | integer a, integer b => .ok (bool (a < b))
  | double a, double b => .ok (bool (Float.ofBits a < Float.ofBits b))
  | a, b => .error (.unlikeOperands a.kind b.kind)

def greater : Value → Value → Except Fault Value
  | integer a, integer b => .ok (bool (b < a))
  | double a, double b => .ok (bool (Float.ofBits b < Float.ofBits a))
  | a, b => .error (.unlikeOperands a.kind b.kind)

end Value

/-- What an instruction without operand bytes does to the stack. -/
def Opcode.effect (capacity : Nat) (stack : Stack) : Opcode → Effect
  | constant => { stack }
  | pushNil => stack.push capacity .nil
  | pushTrue => stack.push capacity (.bool true)
  | pushFalse => stack.push capacity (.bool false)
  | negate => stack.unary capacity Value.negate
  | not => stack.unary capacity fun v => .ok (.bool v.countsAsFalse)
  | add => stack.binary capacity Value.add
  | subtract => stack.binary capacity Value.subtract
  | multiply => stack.binary capacity Value.multiply
  | divide => stack.binary capacity Value.divide
  | greater => stack.binary capacity Value.greater
  | less => stack.binary capacity Value.less
  | equal => stack.binary capacity fun a b => .ok (.bool (a.equal b))
  | pop | ret => stack.drop

/-- What one instruction leads to: another instruction, or the end. -/
inductive Step where
  | next (ip : Nat) (stack : Stack)
  | halt (outcome : Except RuntimeError Value) (stack : Stack)

namespace Chunk

def failure (c : Chunk) (offset : Nat) (byte : UInt8) (fault : Fault) : Except RuntimeError Value :=
  .error ⟨offset, c.lineOf offset, byte, fault⟩

/-- Goes on behind an instruction at `offset`, or stops there. -/
def proceed (c : Chunk) (offset : Nat) (byte : UInt8) (ip : Nat) (e : Effect) : Step :=
  match e.fault? with
  | none => .next ip e.stack
  | some fault => .halt (c.failure offset byte fault) e.stack

/-- Loads the constant that an instruction at `ip` names. -/
def load (c : Chunk) (capacity : Nat) (ip : Nat) (stack : Stack) : Effect :=
  match c.operandAt? (ip + 1 : Nat) with
  | none => { stack, fault? := some .truncatedOperand }
  | some index =>
    match c.constants[index.toNat]? with
    | none => { stack, fault? := some (.constantOutOfRange index.toNat) }
    | some v => stack.push capacity v

/-- Executes the instruction at `ip`. -/
def step (c : Chunk) (capacity : Nat) (ip : Nat) (stack : Stack) : Step :=
  match c.code[ip]? with
  | none => .halt (c.failure ip Opcode.ret.byte .endOfCode) stack
  | some byte =>
    match Opcode.ofByte? byte with
    | none => .halt (c.failure ip byte (.unknownOpcode byte)) stack
    | some .constant => c.proceed ip byte (ip + 3) (c.load capacity ip stack)
    | some .ret =>
      match stack.back? with
      | none => .halt (c.failure ip byte .stackUnderflow) stack
      | some v => .halt (.ok v) stack.pop
    | some op => c.proceed ip byte (ip + 1) (op.effect capacity stack)

theorem lt_of_step {c : Chunk} {capacity ip : Nat} {stack : Stack} {after : Nat} {stack' : Stack}
    (moves : c.step capacity ip stack = .next after stack') : ip < after ∧ ip < c.code.size := by
  have onward (byte : UInt8) (target : Nat) (e : Effect) (further : ip < target)
      (same : c.proceed ip byte target e = .next after stack') : ip < after := by
    unfold proceed at same
    split at same
    · simp only [Step.next.injEq] at same
      omega
    · simp at same
  unfold step at moves
  split at moves
  · simp at moves
  next byte present =>
    have inside : ip < c.code.size := by
      rcases Nat.lt_or_ge ip c.code.size with inside | outside
      · exact inside
      · simp [outside] at present
    refine ⟨?_, inside⟩
    split at moves
    · simp at moves
    · exact onward _ _ _ (by omega) moves
    · split at moves <;> simp at moves
    · exact onward _ _ _ (by omega) moves

end Chunk

end ExprLang
