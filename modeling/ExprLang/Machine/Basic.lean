import ExprLang.Machine.Step

/-! The stack machine. It runs one chunk after another in the same cells; a run starts with an empty
stack and leaves behind what was on the stack when it stopped. -/

namespace ExprLang

/-- One traced instruction: the stack before it, and its listing. -/
structure TraceEntry where
  stack : Text
  instruction : Text
  deriving DecidableEq, Repr

namespace TraceEntry

/-- Every value on the stack in brackets, from the bottom up. -/
def stackLine (strings : StringTable) (stack : Stack) : Text :=
  List.replicate 10 0x20 ++
    stack.values.toList.flatMap fun v => utf8 "[ " ++ strings.format v ++ utf8 " ]"

def before (c : Chunk) (ip : Nat) (stack : Stack) : TraceEntry :=
  ⟨stackLine c.strings stack, (c.instructionAt ip).1⟩

def text (entries : List TraceEntry) : Text :=
  Text.lines (entries.flatMap fun e => [e.stack, e.instruction])

end TraceEntry

/-- How a run ended. -/
structure Run where
  outcome : Except RuntimeError Value
  stack : Stack
  trace : List TraceEntry

/-- The trace with the next instruction added to it, if there is one. -/
def Chunk.note (c : Chunk) (tracing : Bool) (traced : Array TraceEntry) (ip : Nat) (stack : Stack) :
    Array TraceEntry :=
  if tracing && decide (ip < c.code.size) then traced.push (TraceEntry.before c ip stack) else traced

/-- Runs code from an instruction on. Every step moves forward, so it ends. -/
def Chunk.runFrom (c : Chunk) (capacity : Nat) (tracing : Bool) (traced : Array TraceEntry)
    (ip : Nat) (stack : Stack) : Run :=
  let traced := c.note tracing traced ip stack
  match _moves : c.step capacity ip stack with
  | .halt outcome stack => ⟨outcome, stack, traced.toList⟩
  | .next ip stack => runFrom c capacity tracing traced ip stack
termination_by c.code.size - ip
decreasing_by
  have further := Chunk.lt_of_step _moves
  omega

/-- Runs code from its start on an empty stack, in the cells of the given one. -/
def Chunk.run (c : Chunk) (capacity : Nat) (tracing : Bool) (stack : Stack) : Run :=
  c.runFrom capacity tracing #[] 0 stack.clear

/-- A machine, with what its last run left behind. -/
structure Machine where
  capacity : Nat
  tracing : Bool := false
  stack : Stack := {}
  loaded : Option Chunk := none

/-- What a machine made of a chunk, with the machine and the chunk as they are afterwards. -/
structure Execution where
  outcome : Except RuntimeError Value
  trace : List TraceEntry
  machine : Machine
  chunk : Option Chunk

namespace Machine

def defaultCapacity : Nat := 64000

/-- A machine of the given stack size, or of the default one if that is not positive. -/
def new (stackSize : Int) (tracing : Bool) : Machine :=
  { capacity := if 0 < stackSize then stackSize.toNat else defaultCapacity, tracing }

/-- The strings of the chunk that ran last. -/
def strings (m : Machine) : StringTable :=
  (m.loaded.map Chunk.strings).getD {}

def reject (m : Machine) (c : Option Chunk) (fault : Fault) : Execution :=
  ⟨.error ⟨0, 0, 0, fault⟩, [], m, c⟩

/-- Freezes a chunk and runs it. A chunk whose lines do not match its code is rejected untouched. -/
def execute (m : Machine) : Option Chunk → Execution
  | none => m.reject none .noChunk
  | some c =>
    if c.code.size ≠ c.lines.size then m.reject (some c) (.lineCount c.code.size c.lines.size)
    else
      let c := c.freeze
      let run := c.run m.capacity m.tracing m.stack
      ⟨run.outcome, run.trace, { m with stack := run.stack, loaded := some c }, some c⟩

end Machine

end ExprLang
