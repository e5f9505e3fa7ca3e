import ExprLang.Proofs.Lockstep
import ExprLang.Proofs.OperatorMeaning

/-! Running the code of expressions and programs. A run follows the evaluation of the tree: it arrives at
its value, or stops with its fault, unless the stack is too small for the tree. Which of these it is
depends on nothing that lies below on the stack. -/

namespace ExprLang

/-- How a run ends: its outcome, and the values that are left on the stack. -/
abbrev Ending := Except RuntimeError Value × Array Value

/-- The instructions that work on the stack alone and go on behind themselves. -/
def Opcode.isPlain : Opcode → Bool
  | constant | ret => false
  | _ => true

@[simp] theorem Opcode.ofByte?_byte (op : Opcode) : ofByte? op.byte = some op := by
  cases op <;> rfl

namespace Stack

/-- A stack of the given values, with nothing behind them. -/
def of (values : Array Value) : Stack :=
  ⟨values, values.size, Nat.le_refl _⟩

@[simp] theorem size_of (values : Array Value) : (of values).size = values.size := rfl

@[simp] theorem values_of (values : Array Value) : (of values).values = values := by
  simp [Stack.values, of]

@[simp] theorem back?_of (values : Array Value) : (of values).back? = values.back? := by
  rw [← back?_values, values_of]

end Stack

namespace Chunk

/-- The end of a run that starts with the given values on the stack. -/
def finish (c : Chunk) (capacity ip : Nat) (values : Array Value) : Ending :=
  let run := c.runFrom capacity false #[] ip (.of values)
  (run.outcome, run.stack.values)

section
variable {c : Chunk} {capacity ip ip' : Nat} {stack stack' : Stack} {outcome : Except RuntimeError Value}

private theorem ending_eq (same : stack.values = stack'.values) (tracing tracing' : Bool) (traced traced' : Array TraceEntry) :
    ((c.runFrom capacity tracing traced ip stack).outcome, (c.runFrom capacity tracing traced ip stack).stack.values) =
      ((c.runFrom capacity tracing' traced' ip stack').outcome, (c.runFrom capacity tracing' traced' ip stack').stack.values) := by
  induction remaining : c.code.size - ip using Nat.strongRecOn generalizing traced traced' ip stack stack' with
  | _ n ih =>
    have matching := c.step_matches same (Nat.le_refl capacity) ip
    generalize first : c.step capacity ip stack = left at matching
    generalize second : c.step capacity ip stack' = right at matching
    cases matching with
    | next same' =>
      have further := lt_of_step first
      rw [runFrom_next first, runFrom_next second]
      exact ih _ (by omega) same' _ _ rfl
    | halt same' => simp only [runFrom_halt first, runFrom_halt second, same']
    | full more => exact absurd more (Nat.lt_irrefl _)

/-- Neither a trace nor the cells behind the stack change anything in how a run ends. -/
theorem runFrom_ending (c : Chunk) (capacity : Nat) (tracing : Bool) (traced : Array TraceEntry) (ip : Nat) (stack : Stack) :
    ((c.runFrom capacity tracing traced ip stack).outcome, (c.runFrom capacity tracing traced ip stack).stack.values) =
      c.finish capacity ip stack.values :=
  ending_eq (Stack.values_of _).symm tracing false traced #[]

theorem finish_halt (stops : c.step capacity ip stack = .halt outcome stack') :
    c.finish capacity ip stack.values = (outcome, stack'.values) := by
  rw [← runFrom_ending c capacity false #[], runFrom_halt stops]

theorem finish_next (moves : c.step capacity ip stack = .next ip' stack') :
    c.finish capacity ip stack.values = c.finish capacity ip' stack'.values := by
  rw [← runFrom_ending c capacity false #[], runFrom_next moves, runFrom_ending]

end

theorem step_op {c : Chunk} {op : Opcode} {ip : Nat} (here : c.code[ip]? = some op.byte) (plain : op.isPlain = true)
    (capacity : Nat) (stack : Stack) :
    c.step capacity ip stack = c.proceed ip op.byte (ip + 1) (op.effect capacity stack) := by
  simp only [step, here, Opcode.ofByte?_byte]
  cases op with
  | constant | ret => cases plain
  | _ => rfl

theorem finish_ret {c : Chunk} {ip : Nat} (here : c.code[ip]? = some Opcode.ret.byte) (capacity : Nat) (v : Value) :
    c.finish capacity ip #[v] = (.ok v, #[]) := by
  have stops : c.step capacity ip (.of #[v]) = .halt (.ok v) (Stack.of #[v]).pop := by
    simp only [step, here, Opcode.ofByte?_byte]
    rfl
  simpa using finish_halt stops

theorem finish_pop {c : Chunk} {ip : Nat} (here : c.code[ip]? = some Opcode.pop.byte) (capacity : Nat) (v : Value) :
    c.finish capacity ip #[v] = c.finish capacity (ip + 1) #[] := by
  have moves : c.step capacity ip (.of #[v]) = .next (ip + 1) (Stack.of #[v]).pop := by
    rw [step_op here rfl]
    rfl
  simpa using finish_next moves

end Chunk

namespace Stack

/-- The stack after an operation that took its operands from it. -/
def answer (capacity : Nat) (result : Except Fault Value) (stack : Stack) : Effect :=
  match result with
  | .error fault => { stack, fault? := some fault }
  | .ok v => stack.push capacity v

theorem unary_answer (capacity : Nat) (f : Value → Except Fault Value) {stack : Stack} {a : Value}
    (top : stack.back? = some a) : unary capacity f stack = answer capacity (f a) stack.pop := by
  simp only [unary, top]
  cases f a <;> rfl

theorem binary_answer (capacity : Nat) (f : Value → Value → Except Fault Value) {stack : Stack} {a b : Value}
    (top : stack.back? = some b) (below : stack.pop.back? = some a) :
    binary capacity f stack = answer capacity (f a b) stack.pop.pop := by
  simp only [binary, top, below]
  cases f a b <;> rfl

end Stack

theorem Program.codeOf?_cons (s : Statement) (more : List Statement) (last : List Instr) :
    codeOf? (s :: more) last = some (s.expr.code ((codeOf? more last).elim last (.op .pop s.endLine :: ·))) := by
  simp only [codeOf?, List.foldr_cons]
  split <;> simp_all

namespace Chunk

/-- A run against an evaluation that needs so much of the stack. The run goes on with the value, or it
stops with the fault of the evaluation, or the stack overflows. -/
inductive Follows (strings : StringTable) (capacity need : Nat) (meaning : Except EvalError Literal)
    (onward : Value → Ending) : Ending → Prop
  | value {v : Value} {l : Literal} :
      meaning = .ok l → v.Denotes strings l → need ≤ capacity → Follows strings capacity need meaning onward (onward v)
  | fault {err : RuntimeError} {e : EvalError} {stack : Array Value} :
      meaning = .error e → err.fault.cause = e.fault.cause → err.line = Int64.ofNat e.line →
      Follows strings capacity need meaning onward (.error err, stack)
  | overflow {err : RuntimeError} {stack : Array Value} :
      err.fault = .stackOverflow capacity → capacity < need → Follows strings capacity need meaning onward (.error err, stack)

section
variable {c : Chunk} {capacity : Nat}

/-- One evaluation after another. They need as much of the stack as the one that needs more of it. -/
theorem Follows.bind {first second : Nat} {meaning : Except EvalError Literal} {further : Literal → Except EvalError Literal}
    {onward onward' : Value → Ending} {ending : Ending} (follows : Follows c.strings capacity first meaning onward ending)
    (next : ∀ v l, v.Denotes c.strings l → first ≤ capacity →
      Follows c.strings capacity second (further l) onward' (onward v)) :
    Follows c.strings capacity (max first second) (meaning.bind further) onward' ending := by
  cases follows with
  | @value v l same denotes fits =>
    subst same
    have after := next v l denotes fits
    generalize onward v = ending at after
    cases after with
    | value same' denotes' fits' => exact .value same' denotes' (Nat.max_le.mpr ⟨fits, fits'⟩)
    | fault same' cause line => exact .fault same' cause line
    | overflow full small => exact .overflow full (Nat.lt_of_lt_of_le small (Nat.le_max_right _ _))
  | fault same cause line =>
    subst same
    exact .fault rfl cause line
  | overflow full small => exact .overflow full (Nat.lt_of_lt_of_le small (Nat.le_max_left _ _))

private theorem finish_fault {ip next line : Nat} {byte : UInt8} {before stack : Stack} {fault : Fault}
    (moves : c.step capacity ip before = c.proceed ip byte next { stack, fault? := some fault })
    (known : c.lines[ip]? = some (Int64.ofNat line)) :
    c.finish capacity ip before.values = (.error ⟨ip, Int64.ofNat line, byte, fault⟩, stack.values) := by
  have place : c.lineOf ip = Int64.ofNat line := by simp [lineOf, known]
  rw [finish_halt moves, failure, place]

theorem follows_answer {ip next line : Nat} {byte : UInt8} {before stack : Stack} {result : Except Fault Value}
    {meaning : Except EvalFault Literal}
    (moves : c.step capacity ip before = c.proceed ip byte next (stack.answer capacity result))
    (known : c.lines[ip]? = some (Int64.ofNat line)) (agrees : Value.Agrees c.strings result meaning) :
    Follows c.strings capacity (stack.size + 1) (meaning.mapError (EvalError.mk line))
      (fun v => c.finish capacity next (stack.values.push v)) (c.finish capacity ip before.values) := by
  cases result with
  | error fault =>
    cases meaning with
    | error e =>
      rw [finish_fault moves known]
      exact .fault rfl agrees rfl
    | ok l => exact agrees.elim
  | ok v =>
    cases meaning with
    | error e => exact agrees.elim
    | ok l =>
      simp only [Stack.answer, Stack.push] at moves
      split at moves
      next room =>
        rw [finish_next moves, Stack.values_put]
        exact .value rfl agrees room
      next full =>
        rw [finish_fault moves known]
        exact .overflow rfl (by omega)

theorem follows_op {ip line : Nat} {op : Opcode} {before stack : Stack} {result : Except Fault Value}
    {meaning : Except EvalFault Literal} (here : c.HasAt ip (.op op line)) (plain : op.isPlain = true)
    (effect : op.effect capacity before = stack.answer capacity result) (agrees : Value.Agrees c.strings result meaning) :
    Follows c.strings capacity (stack.size + 1) (meaning.mapError (EvalError.mk line))
      (fun v => c.finish capacity (ip + 1) (stack.values.push v)) (c.finish capacity ip before.values) :=
  follows_answer (effect ▸ step_op here.1 plain capacity before) here.2 agrees

theorem follows_load {l : Literal} {line ip : Nat} (here : c.HasAt ip (.load l line)) (stack : Array Value) :
    Follows c.strings capacity (stack.size + 1) (.ok l) (fun v => c.finish capacity (ip + 3) (stack.push v))
      (c.finish capacity ip stack) := by
  obtain ⟨byte, known, index, v, operand, constant, denotes⟩ := here
  have moves : c.step capacity ip (.of stack) =
      c.proceed ip Opcode.constant.byte (ip + 3) ((Stack.of stack).answer capacity (.ok v)) := by
    simp only [step, byte, Opcode.ofByte?_byte, load, operand, constant]
    rfl
  have agrees : Value.Agrees c.strings (.ok v) (.ok l) := denotes
  have follows := follows_answer moves known agrees
  rw [Stack.values_of] at follows
  exact follows

theorem follows_literal {l : Literal} {line ip : Nat} {more : List Instr} (holds : c.Holds ip (l.instr line :: more))
    (stack : Array Value) :
    Follows c.strings capacity (stack.size + 1) (.ok l)
      (fun v => c.finish capacity (ip + (l.instr line).size) (stack.push v)) (c.finish capacity ip stack) := by
  have pushed {op : Opcode} {v : Value} (here : c.HasAt ip (.op op line)) (plain : op.isPlain = true)
      (effect : op.effect capacity (.of stack) = (Stack.of stack).answer capacity (.ok v))
      (agrees : Value.Agrees c.strings (.ok v) (.ok l)) :
      Follows c.strings capacity (stack.size + 1) (.ok l) (fun v => c.finish capacity (ip + 1) (stack.push v))
        (c.finish capacity ip stack) := by
    have follows := follows_op here plain effect agrees
    rw [Stack.values_of] at follows
    exact follows
  cases l with
  | nil => exact pushed holds.1 rfl rfl .nil
  | bool b =>
    cases b with
    | false => exact pushed holds.1 rfl rfl (.bool false)
    | true => exact pushed holds.1 rfl rfl (.bool true)
  | _ => exact follows_load holds.1 stack

theorem follows_unary (op : UnaryOp) {line ip : Nat} {more : List Instr} (holds : c.Holds ip (.op op.opcode line :: more))
    (stack : Array Value) {a : Value} {l : Literal} (denotes : a.Denotes c.strings l) :
    Follows c.strings capacity (stack.size + 1) ((op.apply l).mapError (EvalError.mk line))
      (fun v => c.finish capacity (ip + 1) (stack.push v)) (c.finish capacity ip (stack.push a)) := by
  have top : (Stack.of (stack.push a)).back? = some a := by simp
  have follows {f : Value → Except Fault Value} (plain : op.opcode.isPlain = true)
      (effect : ∀ s : Stack, op.opcode.effect capacity s = s.unary capacity f) (agrees : Value.Agrees c.strings (f a) (op.apply l)) :=
    follows_op holds.1 plain ((effect _).trans (Stack.unary_answer capacity f top)) agrees
  simp only [Stack.size_pop, Stack.size_of, Array.size_push, Nat.add_sub_cancel, Stack.values_pop, Stack.values_of,
    Array.pop_push] at follows
  cases op with
  | negate => exact follows rfl (fun _ => rfl) (Value.negate_agrees denotes)
  | not => exact follows (f := fun v => .ok (.bool v.countsAsFalse)) rfl (fun _ => rfl) (Value.not_agrees denotes)

/-- The instruction combines two values as an operator combines their literals. -/
def Combines (c : Chunk) (capacity : Nat) (op : Opcode) (meaning : Literal → Literal → Except EvalFault Literal) : Prop :=
  op.isPlain = true ∧ ∃ f, (∀ stack, op.effect capacity stack = stack.binary capacity f) ∧
    ∀ a b la lb, a.Denotes c.strings la → b.Denotes c.strings lb → Value.Agrees c.strings (f a b) (meaning la lb)

/-- Code that finds two operands on the stack and leaves their combination behind it. -/
def FollowsPair (c : Chunk) (capacity ip line : Nat) (more : List Instr)
    (meaning : Literal → Literal → Except EvalFault Literal) : Prop :=
  ∃ next, c.Holds next more ∧ ∀ (stack : Array Value) (a b : Value) (la lb : Literal),
    a.Denotes c.strings la → b.Denotes c.strings lb →
    Follows c.strings capacity (stack.size + 1) ((meaning la lb).mapError (EvalError.mk line))
      (fun v => c.finish capacity next (stack.push v)) (c.finish capacity ip ((stack.push a).push b))

private theorem follows_combines {op : Opcode} {line ip : Nat} {more : List Instr}
    {meaning : Literal → Literal → Except EvalFault Literal} (combines : c.Combines capacity op meaning)
    (holds : c.Holds ip (.op op line :: more)) : c.FollowsPair capacity ip line more meaning := by
  obtain ⟨plain, f, effect, agrees⟩ := combines
  refine ⟨ip + 1, holds.2, ?_⟩
  intro stack a b la lb left right
  have top : (Stack.of ((stack.push a).push b)).back? = some b := by simp
  have below : (Stack.of ((stack.push a).push b)).pop.back? = some a := by
    rw [← Stack.back?_values, Stack.values_pop, Stack.values_of, Array.pop_push, Array.back?_push]
  have follows := follows_op holds.1 plain ((effect _).trans (Stack.binary_answer capacity f top below))
    (agrees a b la lb left right)
  simpa only [Stack.size_pop, Stack.size_of, Array.size_push, Nat.add_sub_cancel, Stack.values_pop, Stack.values_of,
    Array.pop_push] using follows

private theorem mapError_bind {α β ε ε' : Type} (r : Except ε α) (f : α → Except ε β) (g : ε → ε') :
    (r.bind f).mapError g = (r.mapError g).bind fun a => (f a).mapError g := by
  cases r <;> rfl

private theorem follows_denied {op : Opcode} {line ip : Nat} {more : List Instr}
    {meaning : Literal → Literal → Except EvalFault Literal} (combines : c.Combines capacity op meaning)
    (holds : c.Holds ip (.op op line :: .op .not line :: more)) :
    c.FollowsPair capacity ip line more (fun a b => (meaning a b).bind UnaryOp.not.apply) := by
  obtain ⟨next, denial, first⟩ := follows_combines combines holds
  refine ⟨next + 1, denial.2, ?_⟩
  intro stack a b la lb left right
  have both := (first stack a b la lb left right).bind (fun v l denotes _ => follows_unary .not denial stack denotes)
  rw [Nat.max_self] at both
  rw [mapError_bind]
  exact both

theorem follows_binary (op : BinaryOp) {line ip : Nat} {more : List Instr}
    (holds : c.Holds ip (op.opcodes.map (Instr.op · line) ++ more)) : c.FollowsPair capacity ip line more op.apply := by
  have equals : c.Combines capacity .equal BinaryOp.equal.apply :=
    ⟨rfl, fun a b => .ok (.bool (a.equal b)), fun _ => rfl, fun _ _ _ _ => Value.equal_agrees⟩
  have lesser : c.Combines capacity .less BinaryOp.less.apply :=
    ⟨rfl, Value.less, fun _ => rfl, fun _ _ _ _ => Value.less_agrees⟩
  have larger : c.Combines capacity .greater BinaryOp.greater.apply :=
    ⟨rfl, Value.greater, fun _ => rfl, fun _ _ _ _ => Value.greater_agrees⟩
  have denied (f g : BinaryOp) (same : ∀ a b, f.apply a b = (g.apply a b).bind UnaryOp.not.apply) :
      f.apply = fun a b => (g.apply a b).bind UnaryOp.not.apply := funext fun a => funext (same a)
  cases op with
  | add => exact follows_combines ⟨rfl, Value.add, fun _ => rfl, fun _ _ _ _ => Value.arithmetic_agrees _ _⟩ holds
  | subtract =>
    exact follows_combines ⟨rfl, Value.subtract, fun _ => rfl, fun _ _ _ _ => Value.arithmetic_agrees _ _⟩ holds
  | multiply =>
    exact follows_combines ⟨rfl, Value.multiply, fun _ => rfl, fun _ _ _ _ => Value.arithmetic_agrees _ _⟩ holds
  | divide => exact follows_combines ⟨rfl, Value.divide, fun _ => rfl, fun _ _ _ _ => Value.divide_agrees⟩ holds
  | equal => exact follows_combines equals holds
  | less => exact follows_combines lesser holds
  | greater => exact follows_combines larger holds
  | notEqual => exact denied _ _ (fun a b => (BinaryOp.apply_denied a b).1) ▸ follows_denied equals holds
  | greaterEqual => exact denied _ _ (fun a b => (BinaryOp.apply_denied a b).2.1) ▸ follows_denied lesser holds
  | lessEqual => exact denied _ _ (fun a b => (BinaryOp.apply_denied a b).2.2) ▸ follows_denied larger holds

/-- The code of an expression, on any stack and with any code behind it. -/
theorem follows_expr (e : Expr) {ip : Nat} {more : List Instr} (holds : c.Holds ip (e.code more)) :
    ∃ next, c.Holds next more ∧ ∀ stack : Array Value, Follows c.strings capacity (stack.size + e.stackNeed) e.eval
      (fun v => c.finish capacity next (stack.push v)) (c.finish capacity ip stack) := by
  induction e generalizing ip more with
  | literal l line => exact ⟨_, holds.2, fun stack => follows_literal holds stack⟩
  | unary op line operand ih =>
    obtain ⟨next, behind, inner⟩ := ih holds
    refine ⟨next + 1, behind.2, fun stack => ?_⟩
    have both := (inner stack).bind (fun v l denotes _ => follows_unary op behind stack denotes)
    have needs : max (stack.size + operand.stackNeed) (stack.size + 1) = stack.size + operand.stackNeed :=
      Nat.max_eq_left (Nat.add_le_add_left operand.stackNeed_pos _)
    rw [Expr.eval_unary, Expr.stackNeed, ← needs]
    exact both
  | binary op line left right ihl ihr =>
    -- The right operand is evaluated with the left one below it, so that it has one place less.
    obtain ⟨middle, behind, first⟩ := ihl holds
    obtain ⟨last, opcodes, second⟩ := ihr behind
    obtain ⟨next, rest, third⟩ := follows_binary op opcodes
    refine ⟨next, rest, fun stack => ?_⟩
    have onTop (a : Value) := second (stack.push a)
    simp only [Array.size_push] at onTop
    have all := (first stack).bind (fun a la leftDenotes _ => (onTop a).bind
      (fun b lb rightDenotes _ => third stack a b la lb leftDenotes rightDenotes))
    have needs : max (stack.size + left.stackNeed) (max (stack.size + 1 + right.stackNeed) (stack.size + 1)) =
        stack.size + max left.stackNeed (1 + right.stackNeed) := by
      omega
    rw [Expr.eval_binary, Expr.stackNeed, ← needs]
    exact all

private theorem follows_ret {ip line : Nat} (here : c.HasAt ip (.op .ret line)) {v : Value} {l : Literal}
    (denotes : v.Denotes c.strings l) (fits : 1 ≤ capacity) :
    Follows c.strings capacity 1 (.ok l) (fun v => (.ok v, #[])) (c.finish capacity ip #[v]) := by
  rw [finish_ret here.1]
  exact .value rfl denotes fits

theorem follows_statements (ss : List Statement) {ip endLine : Nat} {code : List Instr}
    (found : Program.codeOf? ss [.op .ret endLine] = some code) (holds : c.Holds ip code) (last : Literal) :
    Follows c.strings capacity (ss.foldr (fun s need => max s.expr.stackNeed need) 1) (Program.evalFrom last ss)
      (fun v => (.ok v, #[])) (c.finish capacity ip #[]) := by
  induction ss generalizing ip code last with
  | nil => simp [Program.codeOf?] at found
  | cons s more ih =>
    rw [Program.codeOf?_cons] at found
    obtain rfl := Option.some.inj found
    obtain ⟨next, behind, first⟩ := follows_expr s.expr holds
    have alone := first #[]
    simp only [List.size_toArray, List.length_nil, Nat.zero_add] at alone
    rw [Program.evalFrom_cons, List.foldr_cons]
    refine alone.bind fun v l denotes fits => ?_
    cases others : Program.codeOf? more [.op .ret endLine] with
    | none =>
      rw [others] at behind
      cases more with
      | nil =>
        exact follows_ret behind.1 denotes (Nat.le_trans s.expr.stackNeed_pos fits)
      | cons t rest => simp [Program.codeOf?_cons] at others
    | some rest =>
      rw [others] at behind
      have dropped : c.finish capacity next #[v] = c.finish capacity (next + 1) #[] := finish_pop behind.1.1 capacity v
      simp only [List.push_toArray, List.nil_append, dropped]
      exact ih others behind.2 l

/-- The code of a program. One without statements has nil for its value. -/
theorem follows_program (p : Program) (holds : c.Holds 0 p.code) :
    Follows c.strings capacity p.stackNeed p.eval (fun v => (.ok v, #[])) (c.finish capacity 0 #[]) := by
  obtain ⟨statements, endLine⟩ := p
  cases statements with
  | nil =>
    have pushed : Follows c.strings capacity 1 (.ok .nil) (fun v => c.finish capacity 1 #[v]) (c.finish capacity 0 #[]) :=
      follows_literal holds #[]
    exact pushed.bind fun v l denotes fits => follows_ret holds.2.1 denotes fits
  | cons s more =>
    refine follows_statements (s :: more) (Program.codeOf?_cons s more [.op .ret endLine]) ?_ .nil
    simpa only [Program.code, Program.codeOf?_cons, Option.getD_some] using holds

end

end Chunk

theorem Machine.execute_follows (m : Machine) {c : Chunk} {p : Program} (holds : c.Holds 0 p.code) (tidy : c.Tidy) :
    Chunk.Follows c.strings m.capacity p.stackNeed p.eval (fun v => (.ok v, #[]))
      ((m.execute (some c)).outcome, (m.execute (some c)).machine.stack.values) := by
  have runs : Chunk.Follows c.strings m.capacity p.stackNeed p.eval (fun v => (.ok v, #[])) (c.finish m.capacity 0 #[]) :=
    Chunk.follows_program p holds
  have ends := c.runFrom_ending m.capacity m.tracing #[] 0 m.stack.clear
  rw [Stack.values_clear] at ends
  rw [m.execute_lined tidy.lined.symm]
  exact ends ▸ runs

end ExprLang
