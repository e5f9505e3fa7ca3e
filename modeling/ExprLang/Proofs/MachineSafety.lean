import Mathlib
import ExprLang.Machine.Basic

/-! Safety on arbitrary code. A step ends the run, or it goes on at the next instruction with a stack that still fits. So
a run ends before it has executed more instructions than the code has bytes, and an error names the instruction that failed. -/

namespace ExprLang

namespace Stack

variable {capacity : Nat} {stack : Stack} (fits : stack.size ≤ capacity)
include fits

theorem push_fits (v : Value) : (stack.push capacity v).stack.size ≤ capacity := by
  unfold push
  split
  next room =>
    rw [size_put]
    exact room
  · exact fits

theorem pop_fits : stack.pop.size ≤ capacity :=
  Nat.le_trans (Nat.sub_le _ _) fits

theorem unary_fits (f : Value → Except Fault Value) : (stack.unary capacity f).stack.size ≤ capacity := by
  unfold unary
  split
  · exact fits
  · split
    · exact pop_fits fits
    · exact push_fits (pop_fits fits) _

theorem binary_fits (f : Value → Value → Except Fault Value) : (stack.binary capacity f).stack.size ≤ capacity := by
  simp only [binary]
  split
  · exact fits
  · split
    · exact pop_fits fits
    · split
      · exact pop_fits (pop_fits fits)
      · exact push_fits (pop_fits (pop_fits fits)) _

theorem drop_fits : stack.drop.stack.size ≤ capacity := by
  unfold drop
  split
  · exact fits
  · exact pop_fits fits

theorem effect_fits (op : Opcode) : (op.effect capacity stack).stack.size ≤ capacity := by
  cases op with
  | constant => exact fits
  | pushNil | pushTrue | pushFalse => exact push_fits fits _
  | negate | not => exact unary_fits fits _
  | add | subtract | multiply | divide | greater | less | equal => exact binary_fits fits _
  | pop | ret => exact drop_fits fits

theorem load_fits (c : Chunk) (ip : Nat) : (c.load capacity ip stack).stack.size ≤ capacity := by
  unfold Chunk.load
  split
  · exact fits
  · split
    · exact fits
    · exact push_fits fits _

end Stack

def Step.stack : Step → Stack
  | next _ stack | halt _ stack => stack

namespace Chunk

/-- What a step at an offset comes to: the instruction behind it, a result, a fault of the instruction there, or a
fault because there is none. -/
inductive Leads (c : Chunk) (ip : Nat) : Step → Prop
  | next {byte : UInt8} {stack : Stack} :
      c.code[ip]? = some byte → ip + Opcode.lengthOfByte byte ≤ c.code.size →
      Leads c ip (.next (ip + Opcode.lengthOfByte byte) stack)
  | result {v : Value} {stack : Stack} : ip < c.code.size → Leads c ip (.halt (.ok v) stack)
  | fault {byte : UInt8} {fault : Fault} {stack : Stack} :
      c.code[ip]? = some byte → Leads c ip (.halt (c.failure ip byte fault) stack)
  | ended {stack : Stack} : c.code.size ≤ ip → Leads c ip (.halt (c.failure ip Opcode.ret.byte .endOfCode) stack)

variable {c : Chunk} {capacity ip : Nat} {stack : Stack}

theorem proceed_leads {byte : UInt8} {e : Effect} (here : c.code[ip]? = some byte)
    (inside : e.fault? = none → ip + Opcode.lengthOfByte byte ≤ c.code.size) :
    c.Leads ip (c.proceed ip byte (ip + Opcode.lengthOfByte byte) e) := by
  unfold proceed
  split
  next fine => exact .next here (inside fine)
  next => exact .fault here

theorem operandAt?_inside {offset : Nat} {operand : UInt16} (found : c.operandAt? offset = some operand) :
    offset + 2 ≤ c.code.size := by
  simp only [operandAt?] at found
  split at found
  next high => exact (Array.getElem?_eq_some_iff.mp high).1
  · simp at found

/-- An instruction that loads a constant has its operand inside the code. -/
theorem load_inside (fine : (c.load capacity ip stack).fault? = none) : ip + 3 ≤ c.code.size := by
  unfold load at fine
  split at fine
  · simp at fine
  next found => exact operandAt?_inside found

theorem step_leads (c : Chunk) (capacity ip : Nat) (stack : Stack) : c.Leads ip (c.step capacity ip stack) := by
  unfold step
  split
  next absent => exact .ended (Array.getElem?_eq_none_iff.mp absent)
  next byte here =>
    have inside : ip < c.code.size := (Array.getElem?_eq_some_iff.mp here).1
    split
    · exact .fault here
    next decoded =>
      have length : Opcode.lengthOfByte byte = 3 := by simp [Opcode.lengthOfByte, decoded, Opcode.info]
      rw [← length]
      apply proceed_leads here
      rw [length]
      exact load_inside
    next =>
      split
      · exact .fault here
      · exact .result inside
    next op loads _ decoded =>
      have length : Opcode.lengthOfByte byte = 1 := by
        rw [Opcode.lengthOfByte, decoded]
        cases op with
        | constant => exact (loads rfl).elim
        | _ => rfl
      rw [← length]
      apply proceed_leads here
      rw [length]
      exact fun _ => inside

theorem proceed_stack (c : Chunk) (offset : Nat) (byte : UInt8) (next : Nat) (e : Effect) :
    (c.proceed offset byte next e).stack = e.stack := by
  unfold proceed
  split <;> rfl

theorem step_fits (fits : stack.size ≤ capacity) : (c.step capacity ip stack).stack.size ≤ capacity := by
  unfold step
  split
  · exact fits
  · split
    · exact fits
    · rw [proceed_stack]
      exact Stack.load_fits fits c ip
    · split
      · exact fits
      · exact Stack.pop_fits fits
    · rw [proceed_stack]
      exact Stack.effect_fits fits _

/-- The states of a run: from one offset and stack to others, by executing so many instructions. -/
inductive Reaches (c : Chunk) (capacity : Nat) : Nat → Nat → Stack → Nat → Stack → Prop
  | here {ip : Nat} {stack : Stack} : Reaches c capacity 0 ip stack ip stack
  | next {n ip ip' ip'' : Nat} {stack stack' stack'' : Stack} :
      c.step capacity ip stack = .next ip' stack' → Reaches c capacity n ip' stack' ip'' stack'' →
      Reaches c capacity (n + 1) ip stack ip'' stack''

/-- The offsets at which instructions begin, each of them behind the one before. -/
inductive Begins (c : Chunk) : Nat → Prop
  | first : Begins c 0
  | behind {offset : Nat} {byte : UInt8} :
      Begins c offset → c.code[offset]? = some byte → Begins c (offset + Opcode.lengthOfByte byte)

/-- What holds of a run between two instructions. -/
structure Orderly (c : Chunk) (capacity ip : Nat) (stack : Stack) : Prop where
  begins : c.Begins ip
  inside : ip ≤ c.code.size
  fits : stack.size ≤ capacity

theorem Orderly.step {ip' : Nat} {stack' : Stack} (orderly : c.Orderly capacity ip stack)
    (moves : c.step capacity ip stack = .next ip' stack') : c.Orderly capacity ip' stack' := by
  have fits : (c.step capacity ip stack).stack.size ≤ capacity := step_fits orderly.fits
  have leads := c.step_leads capacity ip stack
  rw [moves] at fits leads
  cases leads with
  | next here inside => exact ⟨.behind orderly.begins here, inside, fits⟩

theorem Orderly.reaches {n ip' : Nat} {stack' : Stack} (orderly : c.Orderly capacity ip stack)
    (reaches : c.Reaches capacity n ip stack ip' stack') : c.Orderly capacity ip' stack' := by
  induction reaches with
  | here => exact orderly
  | next moves _ ih => exact ih (orderly.step moves)

/-- Every instruction takes the run further. -/
theorem Reaches.le {n ip' : Nat} {stack' : Stack} (reaches : c.Reaches capacity n ip stack ip' stack') : ip + n ≤ ip' := by
  induction reaches with
  | here => exact Nat.le_refl _
  | next moves _ ih =>
    have further := (lt_of_step moves).1
    omega

theorem runFrom_halt {outcome : Except RuntimeError Value} {stack' : Stack}
    (stops : c.step capacity ip stack = .halt outcome stack') (tracing : Bool) (traced : Array TraceEntry) :
    c.runFrom capacity tracing traced ip stack = ⟨outcome, stack', (c.note tracing traced ip stack).toList⟩ := by
  rw [runFrom]
  split
  next same =>
    obtain ⟨rfl, rfl⟩ := Step.halt.inj (same.symm.trans stops)
    rfl
  next same => simp [stops] at same

theorem runFrom_next {ip' : Nat} {stack' : Stack} (moves : c.step capacity ip stack = .next ip' stack') (tracing : Bool)
    (traced : Array TraceEntry) :
    c.runFrom capacity tracing traced ip stack =
      c.runFrom capacity tracing (c.note tracing traced ip stack) ip' stack' := by
  rw [runFrom]
  split
  next same => simp [moves] at same
  next same =>
    obtain ⟨rfl, rfl⟩ := Step.next.inj (same.symm.trans moves)
    rfl

theorem note_size (c : Chunk) (traced : Array TraceEntry) (ip : Nat) (stack : Stack) :
    (c.note true traced ip stack).size = if ip < c.code.size then traced.size + 1 else traced.size := by
  unfold note
  by_cases inside : ip < c.code.size
  · simp [inside]
  · simp [inside]

/-- Every run ends, in the last of the states that it goes through. A trace has an entry for each of its instructions. -/
theorem runFrom_ends (c : Chunk) (capacity : Nat) (tracing : Bool) (traced : Array TraceEntry) (ip : Nat) (stack : Stack) :
    ∃ n last final, c.Reaches capacity n ip stack last final ∧
      c.step capacity last final =
        .halt (c.runFrom capacity tracing traced ip stack).outcome (c.runFrom capacity tracing traced ip stack).stack ∧
      (tracing = true → (c.runFrom capacity tracing traced ip stack).trace.length =
        traced.size + if last < c.code.size then n + 1 else n) := by
  induction remaining : c.code.size - ip using Nat.strongRecOn generalizing traced ip stack with
  | _ rest ih =>
    cases stepped : c.step capacity ip stack with
    | halt outcome stack' =>
      refine ⟨0, ip, stack, .here, ?_⟩
      rw [runFrom_halt stepped, stepped]
      refine ⟨rfl, ?_⟩
      rintro rfl
      rw [Array.length_toList, note_size]
      split <;> rfl
    | next ip' stack' =>
      have further := lt_of_step stepped
      obtain ⟨n, last, final, reaches, stops, counted⟩ := ih _ (by omega) (c.note tracing traced ip stack) ip' stack' rfl
      refine ⟨n + 1, last, final, .next stepped reaches, ?_⟩
      rw [runFrom_next stepped]
      refine ⟨stops, ?_⟩
      rintro rfl
      rw [counted rfl, note_size, if_pos further.2]
      split <;> omega

/-- A frozen chunk runs as the chunk itself does. -/
theorem runFrom_freeze (c : Chunk) (capacity : Nat) (tracing : Bool) (traced : Array TraceEntry) (ip : Nat) (stack : Stack) :
    c.freeze.runFrom capacity tracing traced ip stack = c.runFrom capacity tracing traced ip stack := by
  have same : c.freeze.step capacity ip stack = c.step capacity ip stack := rfl
  induction remaining : c.code.size - ip using Nat.strongRecOn generalizing traced ip stack with
  | _ rest ih =>
    cases stepped : c.step capacity ip stack with
    | halt outcome stack' =>
      rw [runFrom_halt stepped, runFrom_halt (same.trans stepped)]
      rfl
    | next ip' stack' =>
      have further := lt_of_step stepped
      rw [runFrom_next stepped, runFrom_next (same.trans stepped)]
      exact ih _ (by omega) _ _ _ rfl rfl

end Chunk

theorem Machine.execute_lined (m : Machine) {c : Chunk} (lined : c.code.size = c.lines.size) :
    m.execute (some c) =
      let run := c.run m.capacity m.tracing m.stack
      ⟨run.outcome, run.trace, { m with stack := run.stack, loaded := some c.freeze }, some c.freeze⟩ := by
  have same : c.freeze.run m.capacity m.tracing m.stack = c.run m.capacity m.tracing m.stack := c.runFrom_freeze ..
  simp only [execute, lined, ne_eq, not_true_eq_false, if_false, same]

/-- The classes of faults. -/
def Fault.causes : List String := [
  "stack overflow", "stack underflow", "unknown opcode", "operand type mismatch", "division by zero", "malformed chunk"]

theorem Fault.cause_mem (fault : Fault) : fault.cause ∈ causes := by
  cases fault <;> simp [cause, causes]

/-- An error names the instruction that failed, or says that the code ran out. -/
inductive RuntimeError.Located (c : Chunk) (err : RuntimeError) : Prop
  | instruction :
      c.Begins err.offset → c.code[err.offset]? = some err.byte → c.lines[err.offset]? = some err.line → Located c err
  | ending :
      err.offset = c.code.size → err.byte = Opcode.ret.byte → err.line = 0 → err.fault.cause = "malformed chunk" →
      Located c err

namespace Chunk

theorem Orderly.start (c : Chunk) (capacity : Nat) (stack : Stack) : c.Orderly capacity 0 stack.clear :=
  ⟨.first, Nat.zero_le _, Nat.zero_le _⟩

theorem Orderly.located {c : Chunk} {capacity ip : Nat} {stack stack' : Stack} {err : RuntimeError}
    (orderly : c.Orderly capacity ip stack) (lined : c.code.size = c.lines.size)
    (stops : c.step capacity ip stack = .halt (.error err) stack') : err.Located c := by
  have leads := c.step_leads capacity ip stack
  rw [stops] at leads
  generalize failed : Except.error err = outcome at leads
  cases leads with
  | result => cases failed
  | fault here =>
    obtain rfl := Except.error.inj failed
    have inside : ip < c.lines.size := lined ▸ (Array.getElem?_eq_some_iff.mp here).1
    exact .instruction orderly.begins here (by simp [lineOf, inside])
  | ended outside =>
    obtain rfl := Except.error.inj failed
    have nowhere : c.lines[ip]? = none := Array.getElem?_eq_none (lined ▸ outside)
    exact .ending (Nat.le_antisymm orderly.inside outside) rfl (by simp [lineOf, nowhere]) rfl

end Chunk

/-- Whatever a chunk holds, its execution ends after at most as many instructions as the code has bytes, stays inside the
code and the stack, and gives a value or an error of one class that tells where it is. -/
theorem execute_safe (m : Machine) {c : Chunk} (lined : c.code.size = c.lines.size) :
    (∃ n ip stack, c.Reaches m.capacity n 0 m.stack.clear ip stack ∧
      c.step m.capacity ip stack = .halt (m.execute (some c)).outcome (m.execute (some c)).machine.stack ∧
      (if ip < c.code.size then n + 1 else n) ≤ c.code.size ∧
      (m.tracing = true → (m.execute (some c)).trace.length = if ip < c.code.size then n + 1 else n)) ∧
    (∀ n ip stack, c.Reaches m.capacity n 0 m.stack.clear ip stack → ip ≤ c.code.size ∧ stack.size ≤ m.capacity) ∧
    (m.execute (some c)).machine.stack.size ≤ m.capacity ∧
    ∀ err, (m.execute (some c)).outcome = .error err →
      (∃! cause, cause ∈ Fault.causes ∧ err.fault.cause = cause) ∧ err.Located c := by
  have start := Chunk.Orderly.start c m.capacity m.stack
  simp only [m.execute_lined lined, Chunk.run]
  obtain ⟨n, ip, stack, reaches, stops, counted⟩ := c.runFrom_ends m.capacity m.tracing #[] 0 m.stack.clear
  have orderly := start.reaches reaches
  have moved := reaches.le
  refine ⟨⟨n, ip, stack, reaches, stops, ?_, ?_⟩, ?_, ?_, ?_⟩
  · have inside := orderly.inside
    split <;> omega
  · intro tracing
    simpa using counted tracing
  · intro n ip stack reaches
    have between := start.reaches reaches
    exact ⟨between.inside, between.fits⟩
  · have fits : (c.step m.capacity ip stack).stack.size ≤ m.capacity := Chunk.step_fits orderly.fits
    rw [stops] at fits
    exact fits
  · intro err failed
    refine ⟨⟨err.fault.cause, ⟨err.fault.cause_mem, rfl⟩, fun cause same => same.2.symm⟩, ?_⟩
    exact orderly.located lined (failed ▸ stops)

/-- A value, and a load whose operand is cut short. -/
def Chunk.cutShort : Chunk where
  code := #[0x08, 0x01, 0x05]
  lineTable := some #[3, 7, 7]

theorem cutShort_fails_at_its_load :
    let m : Machine := { capacity := 1, tracing := true, stack := ⟨#[.integer 5], 1, by decide⟩ }
    (m.execute (some Chunk.cutShort)).outcome = .error ⟨1, 7, 0x01, .truncatedOperand⟩ ∧
      RuntimeError.Located Chunk.cutShort ⟨1, 7, 0x01, .truncatedOperand⟩ ∧
      (m.execute (some Chunk.cutShort)).trace.length ≤ 3 ∧ (m.execute (some Chunk.cutShort)).machine.stack.size ≤ 1 := by
  intro m
  have failed : (m.execute (some Chunk.cutShort)).outcome = .error ⟨1, 7, 0x01, .truncatedOperand⟩ := by cbv
  obtain ⟨⟨n, ip, stack, _, _, few, counted⟩, _, fits, located⟩ := execute_safe m (c := Chunk.cutShort) rfl
  exact ⟨failed, (located _ failed).2, (counted rfl).symm ▸ few, fits⟩

end ExprLang
