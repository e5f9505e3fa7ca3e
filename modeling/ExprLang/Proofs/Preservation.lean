import Mathlib
import ExprLang.Proofs.Acceptance
import ExprLang.Proofs.Execution

/-! What compiled programs do on the machine. The source of a program has one tree; running its code gives
what evaluating the tree gives, on every stack that is large enough for it and on no other. -/

namespace ExprLang

theorem Literal.isLoad_instr (l : Literal) (line : Nat) : (l.instr line).isLoad = l.isPooled := by
  cases l <;> rfl

theorem Expr.Spelt.loads_le {layer : Layer} {ts : List Token} {e : Expr} (spelt : Expr.Spelt layer ts e) (more : List Instr) :
    (e.code more).countP Instr.isLoad ≤ ts.countP Token.isPooled + more.countP Instr.isLoad := by
  induction spelt generalizing more with
  | @literal t _ =>
    simp only [Expr.code, List.countP_cons, List.countP_nil, Literal.isLoad_instr, Literal.isPooled_denoted]
    omega
  | group _ _ _ ih =>
    have inner := ih more
    simp only [List.cons_append, List.countP_cons, List.countP_append]
    omega
  | @unary t op ts e _ _ ih =>
    have inner := ih (.op op.opcode t.line :: more)
    simp only [Expr.code, List.countP_cons, Instr.isLoad, Bool.false_eq_true, if_false] at inner ⊢
    omega
  | @binary t op ls rs l r _ _ _ left right =>
    have opcodes : (op.opcodes.map (Instr.op · t.line)).countP Instr.isLoad = 0 := by cases op <;> rfl
    have first := left (r.code (op.opcodes.map (Instr.op · t.line) ++ more))
    have second := right (op.opcodes.map (Instr.op · t.line) ++ more)
    simp only [Expr.code, List.countP_cons, List.countP_append, opcodes] at first second ⊢
    omega
  | tighter _ ih => exact ih more

theorem Statement.Spelt.loads_le {ts : List Token} {ss : List Statement} (spelt : Statement.Spelt ts ss) {last code : List Instr}
    (found : Program.codeOf? ss last = some code) :
    code.countP Instr.isLoad ≤ ts.countP Token.isPooled + last.countP Instr.isLoad := by
  induction spelt generalizing code with
  | none => simp [Program.codeOf?] at found
  | last spelt =>
    obtain rfl := Option.some.inj found
    exact spelt.loads_le last
  | @more ts rest t e others spelt sign _ ih =>
    rw [Program.codeOf?_cons] at found
    obtain rfl := Option.some.inj found
    have first := spelt.loads_le ((Program.codeOf? others last).elim last (.op .pop t.line :: ·))
    simp only [List.countP_append, List.countP_cons]
    cases behind : Program.codeOf? others last with
    | none =>
      simp only [behind, Option.elim_none] at first ⊢
      omega
    | some code =>
      have second := ih behind
      simp only [behind, Option.elim_some, List.countP_cons, Instr.isLoad, Bool.false_eq_true, if_false] at first ⊢
      omega

theorem Program.Spelt.loads_le {tokens : List Token} {p : Program} (spelt : Program.Spelt tokens p) :
    p.code.countP Instr.isLoad ≤ tokens.countP Token.isPooled := by
  obtain ⟨ts, ending, rfl, _, _, spelt⟩ := spelt
  rw [List.countP_append]
  simp only [Program.code]
  cases found : Program.codeOf? p.statements [.op .ret p.endLine] with
  | none => exact Nat.zero_le _
  | some code => exact Nat.le_trans (spelt.loads_le found) (Nat.add_le_add_left (Nat.zero_le _) _)

/-- A compiled program has one tree, and every run of its chunk follows the evaluation of that tree. -/
theorem compiled_follows {source : Text} {c : Chunk} (compiled : compile source = .ok c) :
    ∃ p, Program.Spelt (Token.all source) p ∧ (∀ q, Program.Spelt (Token.all source) q → q = p) ∧
      ∀ m : Machine, Chunk.Follows c.strings m.capacity p.stackNeed p.eval (fun v => (.ok v, #[]))
        ((m.execute (some c)).outcome, (m.execute (some c)).machine.stack.values) := by
  obtain ⟨p, parsed, rfl⟩ := parse_of_compile compiled
  obtain ⟨spelt, _, room⟩ := Program.parse_spelt parsed
  obtain ⟨holds, tidy⟩ := Chunk.ofCode_holds (Nat.le_trans spelt.loads_le room)
  exact ⟨p, spelt, fun q other => other.eq_of_parse parsed, fun m => m.execute_follows holds tidy⟩

/-- On a stack that is large enough, running a compiled program gives what evaluating its tree gives: a
value of the same literal, or a fault of the same class on the line of the operator that failed. -/
theorem compile_preserves_meaning {source : Text} {c : Chunk} (compiled : compile source = .ok c) :
    ∃ p, Program.Spelt (Token.all source) p ∧ (∀ q, Program.Spelt (Token.all source) q → q = p) ∧
      ∀ m : Machine, p.stackNeed ≤ m.capacity →
        match p.eval with
        | .ok l => ∃ v, (m.execute (some c)).outcome = .ok v ∧ v.Denotes c.strings l
        | .error e => ∃ err, (m.execute (some c)).outcome = .error err ∧
            err.fault.cause = e.fault.cause ∧ err.line = Int64.ofNat e.line := by
  obtain ⟨p, spelt, unique, runs⟩ := compiled_follows compiled
  refine ⟨p, spelt, unique, ?_⟩
  intro m fits
  have run := runs m
  generalize (m.execute (some c)).outcome = outcome at run ⊢
  generalize (m.execute (some c)).machine.stack.values = stack at run
  cases run with
  | @value v l same denotes _ =>
    rw [same]
    exact ⟨v, rfl, denotes⟩
  | @fault err e _ same cause line =>
    rw [same]
    exact ⟨err, rfl, cause, line⟩
  | overflow _ small => exact absurd fits (Nat.not_le_of_lt small)

theorem division_fault_keeps_line :
    ∃ c, compile (utf8 "\"a\" != \"b\";\n8 /\n(2 - 2)") = .ok c ∧
      ∀ m : Machine, 3 ≤ m.capacity → ∃ err, (m.execute (some c)).outcome = .error err ∧
        err.fault.cause = "division by zero" ∧ err.line = 2 := by
  have parsed : Program.parse (utf8 "\"a\" != \"b\";\n8 /\n(2 - 2)") = .ok ⟨[
      ⟨.binary .notEqual 1 (.literal (.string [97]) 1) (.literal (.string [98]) 1), 1⟩,
      ⟨.binary .divide 2 (.literal (.integer 8) 2)
        (.binary .subtract 3 (.literal (.integer 2) 3) (.literal (.integer 2) 3)), 3⟩], 3⟩ := by
    cbv
  have compiled : compile (utf8 "\"a\" != \"b\";\n8 /\n(2 - 2)") = .ok _ := congrArg (Except.map _) parsed
  obtain ⟨p, _, unique, meaning⟩ := compile_preserves_meaning compiled
  obtain rfl := unique _ (Program.parse_spelt parsed).1
  exact ⟨_, compiled, fun m fits => meaning m fits⟩

/-- Whatever the stack, compiled code is well-formed and never short of operands. It overflows the stack
only if this is smaller than the tree needs, and then it has no result; a result leaves nothing behind. -/
theorem compiled_stack_safe {source : Text} {c : Chunk} (compiled : compile source = .ok c) :
    ∃ p, Program.Spelt (Token.all source) p ∧ (∀ q, Program.Spelt (Token.all source) q → q = p) ∧
      ∀ m : Machine,
        (∀ err, (m.execute (some c)).outcome = .error err →
          err.fault.cause ∉ ["stack underflow", "unknown opcode", "malformed chunk"]) ∧
        (p.stackNeed ≤ m.capacity → ∀ err, (m.execute (some c)).outcome = .error err → err.fault.cause ≠ "stack overflow") ∧
        (m.capacity < p.stackNeed → ∀ v, (m.execute (some c)).outcome ≠ .ok v) ∧
        (∀ v, (m.execute (some c)).outcome = .ok v → (m.execute (some c)).machine.stack.size = 0) := by
  obtain ⟨p, spelt, unique, runs⟩ := compiled_follows compiled
  refine ⟨p, spelt, unique, ?_⟩
  intro m
  have run := runs m
  generalize (m.execute (some c)).outcome = outcome at run ⊢
  rw [← Stack.size_values]
  generalize (m.execute (some c)).machine.stack.values = stack at run ⊢
  cases run with
  | value _ _ fits => exact ⟨by simp, by simp, fun small => absurd fits (Nat.not_le_of_lt small), by simp⟩
  | @fault err e _ _ cause _ =>
    have harmless : e.fault.cause = "operand type mismatch" ∨ e.fault.cause = "division by zero" := by
      cases e.fault
      · exact Or.inl rfl
      · exact Or.inr rfl
    rw [← cause] at harmless
    refine ⟨?_, ?_, by simp, by simp⟩
    · rintro _ same
      obtain rfl := Except.error.inj same
      rcases harmless with same | same <;> rw [same] <;> decide
    · rintro _ _ same
      obtain rfl := Except.error.inj same
      rcases harmless with same | same <;> rw [same] <;> decide
  | @overflow err _ full small =>
    refine ⟨?_, fun fits => absurd fits (Nat.not_le_of_lt small), by simp, by simp⟩
    rintro _ same
    obtain rfl := Except.error.inj same
    rw [full]
    simp [Fault.cause]

theorem nested_sum_needs_four :
    ∃ c, compile (utf8 "1 + (2 + (3 + 4))") = .ok c ∧ ∀ m : Machine,
      (∀ err, (m.execute (some c)).outcome = .error err →
        err.fault.cause ∉ ["stack underflow", "unknown opcode", "malformed chunk"]) ∧
      (4 ≤ m.capacity → ∀ err, (m.execute (some c)).outcome = .error err → err.fault.cause ≠ "stack overflow") ∧
      (m.capacity < 4 → ∀ v, (m.execute (some c)).outcome ≠ .ok v) ∧
      (∀ v, (m.execute (some c)).outcome = .ok v → (m.execute (some c)).machine.stack.size = 0) := by
  have parsed : Program.parse (utf8 "1 + (2 + (3 + 4))") = .ok ⟨[
      ⟨.binary .add 1 (.literal (.integer 1) 1) (.binary .add 1 (.literal (.integer 2) 1)
        (.binary .add 1 (.literal (.integer 3) 1) (.literal (.integer 4) 1))), 1⟩], 1⟩ := by
    cbv
  have compiled : compile (utf8 "1 + (2 + (3 + 4))") = .ok _ := congrArg (Except.map _) parsed
  obtain ⟨p, _, unique, safe⟩ := compiled_stack_safe compiled
  obtain rfl := unique _ (Program.parse_spelt parsed).1
  exact ⟨_, compiled, safe⟩

end ExprLang
