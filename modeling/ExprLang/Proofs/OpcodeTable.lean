import ExprLang.Proofs.Tracing

/-! The instruction set against the machine. What it says of an opcode, how many values it takes and puts and how long its
instruction is, is what a step with that opcode does to the stack and to the offset, and it tells when the stack is too
short or too full for it. So the depth of the stack along a run is known from the listing alone. -/

namespace ExprLang

/-- What an instruction makes of a stack if it takes and puts so many values. It overflows on the given condition. -/
structure Effect.Accords (e : Effect) (stack : Stack) (pops pushes : Nat) (full : Prop) : Prop where
  underflow : e.fault?.map Fault.cause = some "stack underflow" ↔ stack.size < pops
  overflow : e.fault?.map Fault.cause = some "stack overflow" ↔ full
  known : e.fault?.map Fault.cause ≠ some "unknown opcode"
  depth : e.fault? = none → e.stack.size + pops = stack.size + pushes

/-- A fault that an operator finds in its operands. -/
def Fault.OfOperands (fault : Fault) : Prop :=
  fault.cause ∈ ["operand type mismatch", "division by zero"]

theorem Stack.back?_eq_none_iff (stack : Stack) : stack.back? = none ↔ stack.size = 0 := by
  rw [← back?_values, Array.back?_eq_none_iff, ← size_values, Array.size_eq_zero_iff]

theorem Stack.size_pos_of_back? {stack : Stack} {v : Value} (top : stack.back? = some v) : 0 < stack.size := by
  apply Nat.pos_of_ne_zero
  intro empty
  rw [stack.back?_eq_none_iff.mpr empty] at top
  cases top

namespace Effect.Accords

variable {capacity pops pushes : Nat} {stack s : Stack} {full : Prop}

theorem of_iff {e : Effect} {full' : Prop} (accords : e.Accords stack pops pushes full) (same : full ↔ full') :
    e.Accords stack pops pushes full' :=
  ⟨accords.underflow, accords.overflow.trans same, accords.known, accords.depth⟩

theorem done (enough : pops ≤ stack.size) (room : ¬ full) (depth : s.size + pops = stack.size + pushes) :
    Accords { stack := s } stack pops pushes full :=
  ⟨iff_of_false (by simp) (Nat.not_lt.mpr enough), iff_of_false (by simp) room, by simp, fun _ => depth⟩

theorem failed {fault : Fault} (underflow : fault.cause = "stack underflow" ↔ stack.size < pops)
    (overflow : fault.cause = "stack overflow" ↔ full) (known : fault.cause ≠ "unknown opcode") :
    Accords { stack := s, fault? := some fault } stack pops pushes full :=
  ⟨by simpa using underflow, by simpa using overflow, by simpa using known, by simp⟩

theorem short (missing : stack.size < pops) : Accords { stack := s, fault? := some .stackUnderflow } stack pops pushes False :=
  failed (iff_of_true rfl missing) (iff_of_false (by simp [Fault.cause]) id) (by simp [Fault.cause])

theorem malformed {fault : Fault} (malformed : fault.cause = "malformed chunk") (absent : ¬ full) :
    Accords { stack := s, fault? := some fault } stack 0 pushes full :=
  failed (iff_of_false (by simp [malformed]) (Nat.not_lt_zero _)) (iff_of_false (by simp [malformed]) absent) (by simp [malformed])

theorem push (fits : stack.size ≤ capacity) (v : Value) : (stack.push capacity v).Accords stack 0 1 (stack.size = capacity) := by
  unfold Stack.push
  split
  next room => exact done (Nat.zero_le _) (Nat.ne_of_lt room) rfl
  next crowded =>
    have same : stack.size = capacity := by omega
    exact failed (iff_of_false (by simp [Fault.cause]) (Nat.not_lt_zero _)) (iff_of_true rfl same) (by simp [Fault.cause])

/-- The operands leave room for the result, so that an operator does not overflow. -/
theorem answer {result : Except Fault Value} (fits : stack.size ≤ capacity) (taken : s.size + pops = stack.size) (some : 0 < pops)
    (faults : ∀ fault, result = .error fault → fault.OfOperands) : (s.answer capacity result).Accords stack pops 1 False := by
  cases result with
  | error fault =>
    have enough : ¬ stack.size < pops := by omega
    have other : fault.cause = "operand type mismatch" ∨ fault.cause = "division by zero" := by
      simpa [Fault.OfOperands] using faults fault rfl
    refine failed (iff_of_false ?_ enough) (iff_of_false ?_ id) ?_
    all_goals rcases other with same | same <;> simp [same]
  | ok v =>
    simp only [Stack.answer, Stack.push, if_pos (show s.size < capacity by omega)]
    exact done (by omega) id (by rw [Stack.size_put]; omega)

theorem unary {f : Value → Except Fault Value} (fits : stack.size ≤ capacity)
    (faults : ∀ a fault, f a = .error fault → fault.OfOperands) : (stack.unary capacity f).Accords stack 1 1 False := by
  cases top : stack.back? with
  | none =>
    simp only [Stack.unary, top]
    exact short (by rw [stack.back?_eq_none_iff.mp top]; exact Nat.one_pos)
  | some a =>
    have present := Stack.size_pos_of_back? top
    rw [Stack.unary_answer capacity f top]
    exact answer fits (by rw [Stack.size_pop]; omega) Nat.one_pos (faults a)

theorem binary {f : Value → Value → Except Fault Value} (fits : stack.size ≤ capacity)
    (faults : ∀ a b fault, f a b = .error fault → fault.OfOperands) : (stack.binary capacity f).Accords stack 2 1 False := by
  cases top : stack.back? with
  | none =>
    simp only [Stack.binary, top]
    exact short (by rw [stack.back?_eq_none_iff.mp top]; exact Nat.two_pos)
  | some b =>
    have present := Stack.size_pos_of_back? top
    cases below : stack.pop.back? with
    | none =>
      have single := stack.pop.back?_eq_none_iff.mp below
      rw [Stack.size_pop] at single
      simp only [Stack.binary, top, below]
      exact short (by omega)
    | some a =>
      have both := Stack.size_pos_of_back? below
      rw [Stack.size_pop] at both
      rw [Stack.binary_answer capacity f top below]
      exact answer fits (by rw [Stack.size_pop, Stack.size_pop]; omega) Nat.two_pos (faults a b)

theorem drop : stack.drop.Accords stack 1 0 False := by
  unfold Stack.drop
  split
  next none => exact short (by rw [stack.back?_eq_none_iff.mp none]; exact Nat.one_pos)
  next top =>
    have present := Stack.size_pos_of_back? top
    exact done present id (by rw [Stack.size_pop]; omega)

end Effect.Accords

namespace Value

theorem negate_faults (a : Value) (fault : Fault) (failed : a.negate = .error fault) : fault.OfOperands := by
  cases a <;> cases failed <;> exact List.mem_cons_self

theorem arithmetic_faults {onIntegers : Int64 → Int64 → Except Fault Int64} (onDoubles : Float → Float → Float)
    (faults : ∀ m n fault, onIntegers m n = .error fault → fault.OfOperands) (a b : Value) (fault : Fault)
    (failed : arithmetic onIntegers onDoubles a b = .error fault) : fault.OfOperands := by
  unfold arithmetic at failed
  split at failed
  next m n =>
    cases result : onIntegers m n with
    | ok k => simp [result, Except.map] at failed
    | error fault' =>
      obtain rfl : fault' = fault := by simpa [result, Except.map] using failed
      exact faults m n fault' result
  · cases failed
  · cases failed
    exact List.mem_cons_self

theorem divide_faults : ∀ a b fault, divide a b = .error fault → fault.OfOperands := by
  apply arithmetic_faults
  intro m n fault failed
  split at failed
  · cases failed
    exact List.mem_cons_of_mem _ List.mem_cons_self
  · cases failed

theorem less_faults (a b : Value) (fault : Fault) (failed : a.less b = .error fault) : fault.OfOperands := by
  unfold less at failed
  split at failed <;> cases failed
  exact List.mem_cons_self

theorem greater_faults (a b : Value) (fault : Fault) (failed : a.greater b = .error fault) : fault.OfOperands := by
  unfold greater at failed
  split at failed <;> cases failed
  exact List.mem_cons_self

end Value

/-- The instruction at an offset has its operand, and the pool has a constant of that number. -/
def Chunk.NamesConstant (c : Chunk) (ip : Nat) : Prop :=
  ∃ index, c.operandAt? (ip + 1 : Nat) = some index ∧ index.toNat < c.constants.size

/-- An instruction overflows a full stack if it puts a value and takes none. One that loads a constant must have found it. -/
def Chunk.Overflows (c : Chunk) (capacity ip : Nat) (stack : Stack) (op : Opcode) : Prop :=
  op.info.pops = 0 ∧ op.info.pushes = 1 ∧ stack.size = capacity ∧ (op = .constant → c.NamesConstant ip)

section Effects
variable {c : Chunk} {capacity ip : Nat} {stack : Stack} (fits : stack.size ≤ capacity)
include fits

theorem Chunk.load_accords (ip : Nat) :
    (c.load capacity ip stack).Accords stack 0 1 (stack.size = capacity ∧ c.NamesConstant ip) := by
  unfold load
  split
  next absent =>
    apply Effect.Accords.malformed rfl
    rintro ⟨_, index, found, _⟩
    cases absent.symm.trans found
  next index found =>
    split
    next absent =>
      apply Effect.Accords.malformed rfl
      rintro ⟨_, index', found', inside⟩
      obtain rfl := Option.some.inj (found.symm.trans found')
      exact absurd inside (Nat.not_lt.mpr (Array.getElem?_eq_none_iff.mp absent))
    next v constant =>
      have named : c.NamesConstant ip := ⟨index, found, (Array.getElem?_eq_some_iff.mp constant).1⟩
      simpa only [named, and_true] using Effect.Accords.push fits v

theorem Opcode.effect_accords {op : Opcode} (other : op ≠ .constant) :
    (op.effect capacity stack).Accords stack op.info.pops op.info.pushes (c.Overflows capacity ip stack op) := by
  cases op with
  | constant => exact absurd rfl other
  | pushNil | pushTrue | pushFalse => exact (Effect.Accords.push fits _).of_iff (by simp [Chunk.Overflows, info])
  | negate => exact (Effect.Accords.unary fits Value.negate_faults).of_iff (by simp [Chunk.Overflows, info])
  | not =>
    have total (a : Value) (fault : Fault) (failed : Except.ok (Value.bool a.countsAsFalse) = .error fault) : fault.OfOperands := by
      cases failed
    exact (Effect.Accords.unary fits total).of_iff (by simp [Chunk.Overflows, info])
  | add | subtract | multiply =>
    exact (Effect.Accords.binary fits (Value.arithmetic_faults _ (by simp))).of_iff (by simp [Chunk.Overflows, info])
  | divide => exact (Effect.Accords.binary fits Value.divide_faults).of_iff (by simp [Chunk.Overflows, info])
  | greater => exact (Effect.Accords.binary fits Value.greater_faults).of_iff (by simp [Chunk.Overflows, info])
  | less => exact (Effect.Accords.binary fits Value.less_faults).of_iff (by simp [Chunk.Overflows, info])
  | equal =>
    have total (a b : Value) (fault : Fault) (failed : Except.ok (Value.bool (a.equal b)) = .error fault) : fault.OfOperands := by
      cases failed
    exact (Effect.Accords.binary fits total).of_iff (by simp [Chunk.Overflows, info])
  | pop | ret => exact Effect.Accords.drop.of_iff (by simp [Chunk.Overflows, info])

end Effects

namespace Step

/-- What a step did to the stack, whether it goes on or ends the run. -/
def effect : Step → Effect
  | next _ stack | halt (.ok _) stack => { stack }
  | halt (.error err) stack => { stack, fault? := some err.fault }

/-- The step ended the run with a fault of the given class. -/
def FailsWith (s : Step) (cause : String) : Prop :=
  ∃ err stack, s = .halt (.error err) stack ∧ err.fault.cause = cause

theorem failsWith_iff (s : Step) (cause : String) : s.FailsWith cause ↔ s.effect.fault?.map Fault.cause = some cause := by
  cases s with
  | next ip stack => simp [FailsWith, effect]
  | halt outcome stack =>
    cases outcome with
    | ok v => simp [FailsWith, effect]
    | error err => simp [FailsWith, effect]

end Step

theorem Opcode.ofByte?_eq_none_iff (byte : UInt8) : ofByte? byte = none ↔ ∀ op ∈ all, op.byte ≠ byte := by
  simp [ofByte?]

namespace Chunk

variable {c : Chunk} {capacity ip : Nat} {stack : Stack}

theorem proceed_effect (c : Chunk) (offset : Nat) (byte : UInt8) (next : Nat) (e : Effect) :
    (c.proceed offset byte next e).effect = e := by
  obtain ⟨stack, fault?⟩ := e
  cases fault? <;> rfl

theorem step_accords {op : Opcode} (fits : stack.size ≤ capacity) (here : c.code[ip]? = some op.byte) :
    (c.step capacity ip stack).effect.Accords stack op.info.pops op.info.pushes (c.Overflows capacity ip stack op) := by
  by_cases loads : op = .constant
  · subst loads
    have same : c.step capacity ip stack = c.proceed ip Opcode.constant.byte (ip + 3) (c.load capacity ip stack) := by
      simp only [step, here, Opcode.ofByte?_byte]
    rw [same, proceed_effect]
    exact (load_accords fits ip).of_iff (by simp [Overflows, Opcode.info])
  · have same : (c.step capacity ip stack).effect = op.effect capacity stack := by
      by_cases returns : op = .ret
      · subst returns
        simp only [step, here, Opcode.ofByte?_byte, Opcode.effect, Stack.drop]
        cases stack.back? <;> rfl
      · rw [step_op here (by cases op <;> simp_all [Opcode.isPlain]), proceed_effect]
    rw [same]
    exact Opcode.effect_accords fits loads

theorem step_unknown_iff {byte : UInt8} (fits : stack.size ≤ capacity) (here : c.code[ip]? = some byte) :
    (c.step capacity ip stack).FailsWith "unknown opcode" ↔ Opcode.ofByte? byte = none := by
  cases decoded : Opcode.ofByte? byte with
  | none =>
    refine iff_of_true ?_ rfl
    simp only [step, here, decoded]
    exact ⟨_, _, rfl, rfl⟩
  | some op =>
    refine iff_of_false ?_ (by simp)
    rw [Step.failsWith_iff]
    obtain rfl := Opcode.byte_of_ofByte? decoded
    exact (step_accords fits here).known

/-- The offsets of the instructions in a listing, from one of them on. -/
def offsetsFrom (c : Chunk) (offset : Nat) : List Nat :=
  if offset < c.code.size then offset :: c.offsetsFrom (c.instructionAt offset).2 else []
termination_by c.code.size - offset
decreasing_by
  have further := c.lt_instructionAt offset (by assumption)
  omega

theorem offsetsFrom_inside {offset : Nat} (inside : offset < c.code.size) :
    c.offsetsFrom offset = offset :: c.offsetsFrom (c.instructionAt offset).2 := by
  rw [offsetsFrom, if_pos inside]

/-- The listing shows the instructions at these offsets. -/
theorem listingFrom_eq (c : Chunk) (offset : Nat) :
    c.listingFrom offset = (c.offsetsFrom offset).map fun n : Nat => (c.instructionAt n).1 := by
  induction remaining : c.code.size - offset using Nat.strongRecOn generalizing offset with
  | _ rest ih =>
    by_cases inside : offset < c.code.size
    · have further := c.lt_instructionAt offset inside
      rw [c.listingFrom_inside inside, offsetsFrom_inside inside, List.map_cons, ih _ (by omega) _ rfl]
    · rw [offsetsFrom, if_neg inside, listingFrom, c.listingInto_outside #[] inside]
      rfl

/-- How many values more are on the stack after the instruction at an offset, as the instruction set says. -/
def stackChange (c : Chunk) (offset : Nat) : Int :=
  ((c.code[offset]?.bind Opcode.ofByte?).map fun op => (op.info.pushes : Int) - op.info.pops).getD 0

theorem stackChange_eq {op : Opcode} (here : c.code[ip]? = some op.byte) :
    c.stackChange ip = (op.info.pushes : Int) - op.info.pops := by
  simp [stackChange, here, Opcode.ofByte?_byte]

theorem step_depth (fits : stack.size ≤ capacity) (inside : ip < c.code.size)
    (fine : (c.step capacity ip stack).effect.fault? = none) :
    ((c.step capacity ip stack).effect.stack.size : Int) = stack.size + c.stackChange ip := by
  have here : c.code[ip]? = some c.code[ip] := Array.getElem?_eq_getElem inside
  cases decoded : Opcode.ofByte? c.code[ip] with
  | none =>
    have failed := (step_unknown_iff fits here).mpr decoded
    rw [Step.failsWith_iff, fine] at failed
    cases failed
  | some op =>
    rw [← Opcode.byte_of_ofByte? decoded] at here
    have depth := (step_accords fits here).depth fine
    rw [stackChange_eq here]
    omega

/-- A run passes the instructions of the listing one by one, and each changes the depth of the stack as it should. -/
theorem Reaches.depth {k ip' : Nat} {stack' : Stack} (reaches : c.Reaches capacity k ip stack ip' stack')
    (fits : stack.size ≤ capacity) :
    ∃ passed, passed.length = k ∧ c.offsetsFrom ip = passed ++ c.offsetsFrom ip' ∧
      (stack'.size : Int) = stack.size + (passed.map c.stackChange).sum := by
  induction reaches with
  | here => exact ⟨[], rfl, rfl, by simp⟩
  | @next n ip ip' ip'' stack stack' stack'' moves _ ih =>
    have inside := (lt_of_step moves).2
    have first := step_depth fits inside (by rw [moves]; rfl)
    have kept : (c.step capacity ip stack).stack.size ≤ capacity := step_fits fits
    rw [moves] at first kept
    obtain ⟨passed, count, split, depth⟩ := ih kept
    refine ⟨ip :: passed, by rw [List.length_cons, count], ?_, ?_⟩
    · rw [offsetsFrom_inside inside, instructionAt_step moves, split, List.cons_append]
    · simp only [Step.effect] at first
      rw [List.map_cons, List.sum_cons, depth, first, Int.add_assoc]

/-- The depth of the stack after so many instructions of the listing, as the instruction set says. -/
def listedDepth (c : Chunk) (k : Nat) : Int :=
  (((c.offsetsFrom 0).take k).map c.stackChange).sum

theorem listedDepth_eq {passed rest : List Nat} (split : c.offsetsFrom 0 = passed ++ rest) :
    passed.length ≤ c.listing.length ∧ c.listedDepth passed.length = (passed.map c.stackChange).sum := by
  have listed : c.listing = (c.offsetsFrom 0).map fun n : Nat => (c.instructionAt n).1 := c.listingFrom_eq 0
  rw [listed, List.length_map, listedDepth, split, List.take_left, List.length_append]
  exact ⟨Nat.le_add_right _ _, rfl⟩

theorem Reaches.listedDepth {k : Nat} {cells : Stack} (reaches : c.Reaches capacity k 0 cells.clear ip stack) :
    k ≤ c.listing.length ∧ (stack.size : Int) = c.listedDepth k := by
  obtain ⟨passed, rfl, split, depth⟩ := reaches.depth (Nat.zero_le capacity)
  obtain ⟨inside, same⟩ := listedDepth_eq split
  refine ⟨inside, ?_⟩
  rw [depth, same]
  exact Int.zero_add _

/-- The instruction that gives the result counts as well. -/
theorem Reaches.listedDepth_result {k : Nat} {cells stack' : Stack} {v : Value}
    (reaches : c.Reaches capacity k 0 cells.clear ip stack) (returns : c.step capacity ip stack = .halt (.ok v) stack') :
    k + 1 ≤ c.listing.length ∧ (stack'.size : Int) = c.listedDepth (k + 1) := by
  have fits := ((Orderly.start c capacity cells).reaches reaches).fits
  have inside : ip < c.code.size := by
    have leads := c.step_leads capacity ip stack
    rw [returns] at leads
    generalize ended : Except.ok v = outcome at leads
    cases leads with
    | result inside => exact inside
    | fault | ended => cases ended
  have last := step_depth fits inside (by rw [returns]; rfl)
  rw [returns] at last
  simp only [Step.effect] at last
  obtain ⟨passed, rfl, split, depth⟩ := reaches.depth (Nat.zero_le capacity)
  rw [offsetsFrom_inside inside, ← List.singleton_append, ← List.append_assoc] at split
  obtain ⟨listed, same⟩ := listedDepth_eq split
  rw [List.length_append, List.length_singleton] at listed same
  refine ⟨listed, ?_⟩
  rw [same, last, depth, List.map_append, List.sum_append, List.map_singleton, List.sum_singleton]
  exact congrArg (· + _) (Int.zero_add _)

end Chunk

/-- In every state, a step fails for want of an opcode, of operands or of room exactly when the instruction set says so. If it
goes on, the offset and the depth of the stack are what the instruction set says. Hence along a run the depth is the sum of
what the instructions of the listing put and take. -/
theorem instruction_set_describes_machine (c : Chunk) (capacity : Nat) :
    (∀ (ip : Nat) (stack : Stack) (byte : UInt8), stack.size ≤ capacity → c.code[ip]? = some byte →
      let step := c.step capacity ip stack
      (step.FailsWith "unknown opcode" ↔ ∀ op ∈ Opcode.all, op.byte ≠ byte) ∧
      ∀ op ∈ Opcode.all, op.byte = byte →
        (step.FailsWith "stack underflow" ↔ stack.size < op.info.pops) ∧
        (step.FailsWith "stack overflow" ↔
          op.info.pops = 0 ∧ op.info.pushes = 1 ∧ stack.size = capacity ∧ (op = .constant → c.NamesConstant ip)) ∧
        ∀ ip' stack', step = .next ip' stack' →
          (stack'.size : Int) = stack.size - op.info.pops + op.info.pushes ∧ ip' = ip + Opcode.lengthOfByte byte) ∧
    c.listing = ((c.offsetsFrom 0).map fun n : Nat => (c.instructionAt n).1) ∧
    ∀ (k ip : Nat) (cells stack : Stack), c.Reaches capacity k 0 cells.clear ip stack →
      k ≤ c.listing.length ∧ (stack.size : Int) = c.listedDepth k ∧
      ∀ v stack', c.step capacity ip stack = .halt (.ok v) stack' →
        k + 1 ≤ c.listing.length ∧ (stack'.size : Int) = c.listedDepth (k + 1) := by
  refine ⟨?_, c.listingFrom_eq 0, ?_⟩
  · intro ip stack byte fits here step
    refine ⟨(Chunk.step_unknown_iff fits here).trans (Opcode.ofByte?_eq_none_iff byte), ?_⟩
    rintro op - rfl
    have accords := Chunk.step_accords fits here
    refine ⟨(step.failsWith_iff _).trans accords.underflow, (step.failsWith_iff _).trans accords.overflow, ?_⟩
    intro ip' stack' moves
    have depth := accords.depth (by rw [show c.step capacity ip stack = _ from moves]; rfl)
    have leads := c.step_leads capacity ip stack
    rw [show c.step capacity ip stack = _ from moves] at depth leads
    simp only [Step.effect] at depth
    refine ⟨by omega, ?_⟩
    cases leads with
    | next found _ =>
      obtain rfl := Option.some.inj (here.symm.trans found)
      rfl
  · intro k ip cells stack reaches
    obtain ⟨inside, depth⟩ := reaches.listedDepth
    exact ⟨inside, depth, fun v stack' returns => reaches.listedDepth_result returns⟩

/-- Nil compared with a constant. -/
def Chunk.nilCompared : Chunk where
  code := #[0x08, 0x01, 0x00, 0x00, 0x0C, 0x02]
  lineTable := some #[1, 1, 1, 1, 1, 1]
  constants := #[.integer 7]

/-- On a stack of one place the constant is one value too many and the comparison has one too few. On a larger one the three
instructions before the result leave one value. -/
theorem nilCompared_keeps_to_table :
    (Chunk.nilCompared.step 1 1 (.of #[.nil])).FailsWith "stack overflow" ∧
      (Chunk.nilCompared.step 1 4 (.of #[.nil])).FailsWith "stack underflow" ∧
      ∃ stack, Chunk.nilCompared.Reaches 2 3 0 (Stack.of #[]).clear 5 stack ∧
        stack.size = 1 ∧ Chunk.nilCompared.listedDepth 3 = 1 := by
  obtain ⟨steps, _, _⟩ := instruction_set_describes_machine Chunk.nilCompared 1
  obtain ⟨_, _, runs⟩ := instruction_set_describes_machine Chunk.nilCompared 2
  have reaches : Chunk.nilCompared.Reaches 2 3 0 (Stack.of #[]).clear 5 _ := .next rfl (.next rfl (.next rfl .here))
  have named : Chunk.nilCompared.NamesConstant 1 := ⟨0, rfl, by decide⟩
  refine ⟨?_, ?_, _, reaches, rfl, ?_⟩
  · exact ((steps 1 (.of #[.nil]) 0x01 (by decide) rfl).2 .constant (by decide) rfl).2.1.mpr ⟨rfl, rfl, rfl, fun _ => named⟩
  · exact ((steps 4 (.of #[.nil]) 0x0C (by decide) rfl).2 .equal (by decide) rfl).1.mpr (by decide)
  · exact (runs 3 5 (.of #[]) _ reaches).2.1.symm

end ExprLang
