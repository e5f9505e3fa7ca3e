import ExprLang.Machine.Step
import ExprLang.Program.Eval
import ExprLang.Proofs.CodeLayout

/-! Operators on values against operators on literals. Values that stand for literals have a result that
stands for the result of the literals, or a fault of the same class. -/

namespace ExprLang

def EvalFault.cause : EvalFault → String
  | unlikeOperands => "operand type mismatch"
  | divisionByZero => "division by zero"

theorem StringTable.index_unique (strings : StringTable) {word word' : UInt64} {s : Text} (low : word.toNat < UInt32.size)
    (low' : word'.toNat < UInt32.size) (entry : strings.get? word.toUInt32 = some s)
    (entry' : strings.get? word'.toUInt32 = some s) : word.toNat = word'.toNat := by
  have same := congrArg UInt32.toNat (strings.get?_inj entry entry')
  rwa [UInt64.toNat_toUInt32, UInt64.toNat_toUInt32, Nat.mod_eq_of_lt low, Nat.mod_eq_of_lt low'] at same

/-- Three comparisons deny another one. -/
theorem BinaryOp.apply_denied (a b : Literal) :
    notEqual.apply a b = (equal.apply a b).bind UnaryOp.not.apply ∧
    greaterEqual.apply a b = (less.apply a b).bind UnaryOp.not.apply ∧
    lessEqual.apply a b = (greater.apply a b).bind UnaryOp.not.apply := by
  have denies (holds : Bool) : UnaryOp.not.apply (.bool holds) = .ok (.bool !holds) := by cases holds <;> rfl
  simp only [apply]
  refine ⟨(denies _).symm, ?_, ?_⟩
  · cases a.below b with
    | error e => rfl
    | ok holds => exact (denies holds).symm
  · cases b.below a with
    | error e => rfl
    | ok holds => exact (denies holds).symm

namespace Value

/-- The two results are literals of one value, or faults of one class. -/
def Agrees (strings : StringTable) : Except Fault Value → Except EvalFault Literal → Prop
  | .ok v, .ok l => v.Denotes strings l
  | .error fault, .error e => fault.cause = e.cause
  | _, _ => False

section
variable {strings : StringTable} {v a b : Value} {l la lb : Literal}

namespace Denotes

/-- Texts are interned once, so that equal strings have the same value. -/
theorem eq_iff (left : a.Denotes strings la) (right : b.Denotes strings lb) : a = b ↔ la = lb := by
  cases left <;> cases right <;> simp only [reduceCtorEq, Value.bool.injEq, Value.integer.injEq, Value.double.injEq,
    Value.object.injEq, Literal.bool.injEq, Literal.integer.injEq, Literal.double.injEq, Literal.string.injEq]
  next word s low entry word' s' low' entry' =>
    constructor
    · rintro rfl
      exact Option.some.inj (entry.symm.trans entry')
    · rintro rfl
      exact UInt64.toNat_inj.mp (strings.index_unique low low' entry entry')

theorem equal_eq (left : a.Denotes strings la) (right : b.Denotes strings lb) : a.equal b = la.same lb := by
  have same := left.eq_iff right
  cases left <;> cases right <;> first | rfl | exact decide_eq_decide.mpr same

theorem countsAsFalse_eq (denotes : v.Denotes strings l) : v.countsAsFalse = (l = .nil || l = .bool false) := by
  cases denotes with
  | bool b => cases b <;> rfl
  | _ => rfl

end Denotes

theorem negate_agrees (denotes : v.Denotes strings l) : Agrees strings v.negate (UnaryOp.negate.apply l) := by
  cases denotes with
  | integer n => exact .integer _
  | double word => exact .double _
  | _ => rfl

theorem not_agrees (denotes : v.Denotes strings l) : Agrees strings (.ok (.bool v.countsAsFalse)) (UnaryOp.not.apply l) := by
  rw [denotes.countsAsFalse_eq]
  exact .bool _

theorem arithmetic_agrees (onIntegers : Int64 → Int64 → Int64) (onDoubles : Float → Float → Float)
    (left : a.Denotes strings la) (right : b.Denotes strings lb) :
    Agrees strings (arithmetic (fun m n => .ok (onIntegers m n)) onDoubles a b) (la.arithmetic onIntegers onDoubles lb) := by
  cases left <;> cases right <;> first | exact .integer _ | exact .double _ | rfl

theorem divide_agrees (left : a.Denotes strings la) (right : b.Denotes strings lb) :
    Agrees strings (a.divide b) (la.quotient lb) := by
  unfold Literal.quotient
  split
  next m =>
    cases left
    cases right
    rfl
  next proper =>
    cases left <;> cases right <;> try first | exact .double _ | rfl
    next m n =>
      have nonzero : n ≠ 0 := fun zero => proper m rfl (by rw [zero]; rfl)
      simp only [divide, arithmetic, if_neg nonzero]
      exact .integer _

theorem less_agrees (left : a.Denotes strings la) (right : b.Denotes strings lb) :
    Agrees strings (a.less b) ((la.below lb).map .bool) := by
  cases left <;> cases right <;> first | exact .bool _ | rfl

theorem greater_agrees (left : a.Denotes strings la) (right : b.Denotes strings lb) :
    Agrees strings (a.greater b) ((lb.below la).map .bool) := by
  cases left <;> cases right <;> first | exact .bool _ | rfl

theorem equal_agrees (left : a.Denotes strings la) (right : b.Denotes strings lb) :
    Agrees strings (.ok (.bool (a.equal b))) (.ok (.bool (la.same lb))) := by
  rw [left.equal_eq right]
  exact .bool _

end

end Value

namespace Expr

theorem eval_unary (op : UnaryOp) (line : Nat) (operand : Expr) :
    (unary op line operand).eval = operand.eval.bind fun a => (op.apply a).mapError (EvalError.mk line) := by
  rw [eval]
  cases operand.eval <;> rfl

theorem eval_binary (op : BinaryOp) (line : Nat) (left right : Expr) :
    (binary op line left right).eval =
      left.eval.bind fun a => right.eval.bind fun b => (op.apply a b).mapError (EvalError.mk line) := by
  rw [eval]
  cases left.eval with
  | error e => rfl
  | ok a => cases right.eval <;> rfl

theorem stackNeed_pos (e : Expr) : 0 < e.stackNeed := by
  induction e with
  | literal l line => exact Nat.one_pos
  | unary op line operand ih => exact ih
  | binary op line left right ihl ihr => exact Nat.lt_of_lt_of_le ihl (Nat.le_max_left _ _)

end Expr

theorem Program.evalFrom_cons (last : Literal) (s : Statement) (more : List Statement) :
    evalFrom last (s :: more) = s.expr.eval.bind fun v => evalFrom v more := by
  rw [evalFrom]
  cases s.expr.eval <;> rfl

end ExprLang
