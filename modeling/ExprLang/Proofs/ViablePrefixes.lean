import ExprLang.Proofs.GrammarLayers

/-! The beginnings of programs. Whether a token can stand behind others depends on little of them: whether an operand is
due, and how many parentheses are open. How operators group makes no difference. -/

namespace ExprLang

/-- What is due next in a program. Inside of a statement so many parentheses are open. -/
inductive Due where
  | statement
  | operand (depth : Nat)
  | follow (depth : Nat)
  | nothing
  deriving DecidableEq, Repr

namespace Due

/-- What is due behind the first token of an operand. -/
def behind (depth : Nat) : Lead → Due
  | .group => operand (depth + 1)
  | .unary _ => operand depth
  | .literal => follow depth

/-- What is due behind a token that ends an operand. -/
def closing : TokenKind → Nat → Option Due
  | .rightParen, depth + 1 => some (follow depth)
  | .semicolon, 0 => some statement
  | .eof, 0 => some nothing
  | _, _ => none

/-- What is due behind a token, if the token can stand here itself. -/
def after : Due → TokenKind → Option Due
  | statement, k => if k = .eof then some nothing else (Lead.ofKind? k).map (behind 0)
  | operand depth, k => (Lead.ofKind? k).map (behind depth)
  | follow depth, k =>
    if (BinaryOp.ofKind? k).isSome then some (operand depth) else closing k depth
  | nothing, _ => none

def afterAll (due : Due) (ts : List Token) : Option Due :=
  ts.foldlM (fun due t => due.after t.kind) due

@[simp] theorem afterAll_nil (due : Due) : due.afterAll [] = some due := rfl

@[simp] theorem afterAll_cons (due : Due) (t : Token) (ts : List Token) :
    due.afterAll (t :: ts) = (due.after t.kind).bind fun next => next.afterAll ts := by
  rw [afterAll, List.foldlM_cons]
  rfl

theorem afterAll_append (due : Due) (ts us : List Token) :
    due.afterAll (ts ++ us) = (due.afterAll ts).bind fun next => next.afterAll us := by
  rw [afterAll, List.foldlM_append]
  rfl

theorem after_lead {k : TokenKind} {lead : Lead} (leads : Lead.ofKind? k = some lead) (depth : Nat) :
    (operand depth).after k = some (behind depth lead) := by
  rw [after, leads]
  rfl

theorem after_operator {k : TokenKind} {op : BinaryOp} (joins : BinaryOp.ofKind? k = some op) (depth : Nat) :
    (follow depth).after k = some (operand depth) := by
  rw [after, joins]
  rfl

theorem after_follow_eq_none {k : TokenKind} (noOperator : BinaryOp.ofKind? k = none) {depth : Nat}
    (closes : k = .rightParen → depth = 0) (ends : depth = 0 → k ≠ .semicolon ∧ k ≠ .eof) :
    (follow depth).after k = none := by
  rw [after, noOperator]
  cases depth with
  | zero =>
    obtain ⟨separates, ended⟩ := ends rfl
    cases k <;> first | rfl | contradiction
  | succ depth =>
    have inside : k ≠ .rightParen := fun same => absurd (closes same) (Nat.succ_ne_zero depth)
    cases k <;> first | rfl | contradiction

/-- At the start of a statement an operand is due, unless the program ends. -/
theorem afterAll_statement {t : Token} (more : t.kind ≠ .eof) (ts : List Token) :
    statement.afterAll (t :: ts) = (operand 0).afterAll (t :: ts) := by
  rw [afterAll_cons, afterAll_cons, after, if_neg more]
  rfl

end Due

open Due

/-- An expression stands where an operand is due. -/
theorem Expr.Spelt.afterAll {layer : Layer} {ts : List Token} {e : Expr} (spelt : Expr.Spelt layer ts e) (depth : Nat) :
    (operand depth).afterAll ts = some (follow depth) := by
  induction spelt generalizing depth with
  | literal stands =>
    rw [afterAll_cons, after_lead (Lead.ofKind?_eq_literal_iff.mpr stands)]
    rfl
  | @group opening closing ts e opens closes _ ih =>
    have leads : Lead.ofKind? opening.kind = some .group := by
      rw [opens]
      rfl
    rw [List.cons_append, afterAll_cons, after_lead leads, Option.bind_some, behind, afterAll_append, ih, Option.bind_some,
      afterAll_cons, closes]
    rfl
  | unary sign _ ih =>
    rw [afterAll_cons, after_lead (Lead.ofKind?_eq_unary_iff.mpr sign), Option.bind_some, behind, ih]
  | binary sign _ _ left right =>
    have joins := BinaryOp.ofKind?_eq_some_iff.mpr sign
    rw [afterAll_append, left, Option.bind_some, afterAll_cons, after_operator joins, Option.bind_some, right]
  | tighter _ ih => exact ih depth

theorem Expr.Spelt.afterAll_statement {layer : Layer} {ts : List Token} {e : Expr} (spelt : Expr.Spelt layer ts e) :
    statement.afterAll ts = some (follow 0) := by
  obtain ⟨t, rest, rfl⟩ := List.exists_cons_of_ne_nil spelt.ne_nil
  rw [Due.afterAll_statement (spelt.kind_ne List.mem_cons_self).2.1]
  exact spelt.afterAll 0

/-- Behind statements the program may end. -/
theorem Statement.Spelt.afterAll {ts : List Token} {ss : List Statement} (spelt : Statement.Spelt ts ss) :
    ∃ due, statement.afterAll ts = some due ∧ due.after .eof = some nothing := by
  induction spelt with
  | none => exact ⟨statement, rfl, rfl⟩
  | last spelt => exact ⟨follow 0, spelt.afterAll_statement, rfl⟩
  | more spelt sign _ ih =>
    obtain ⟨due, rest, ends⟩ := ih
    refine ⟨due, ?_, ends⟩
    rw [afterAll_append, spelt.afterAll_statement, Option.bind_some, afterAll_cons, sign]
    exact rest

namespace Program

/-- Some program of the grammar begins with these tokens. -/
def Viable (ts : List Token) : Prop :=
  ∃ more p, Spelt (ts ++ more) p

theorem Viable.front {ts us : List Token} (viable : Viable (ts ++ us)) : Viable ts := by
  obtain ⟨more, p, spelt⟩ := viable
  exact ⟨us ++ more, p, by rwa [← List.append_assoc]⟩

theorem Viable.afterAll_isSome {ts : List Token} (viable : Viable ts) : (statement.afterAll ts).isSome = true := by
  obtain ⟨more, p, front, ending, tokens, ended, _, spelt⟩ := viable
  obtain ⟨due, reads, ends⟩ := spelt.afterAll
  have whole : statement.afterAll (ts ++ more) = some nothing := by
    rw [tokens, afterAll_append, reads, Option.bind_some, afterAll_cons, ended, ends]
    rfl
  rw [afterAll_append] at whole
  exact Option.isSome_of_isSome_bind (by rw [whole]; rfl)

theorem not_viable {ts : List Token} (stuck : statement.afterAll ts = none) : ¬ Viable ts := by
  intro viable
  have found := viable.afterAll_isSome
  rw [stuck] at found
  cases found

/-- Statements are a program as they are. -/
theorem viable_of_statements {ts more : List Token} {ss : List Statement} (spelt : Statement.Spelt (ts ++ more) ss) : Viable ts :=
  ⟨more ++ [⟨.eof, [], 1⟩], ⟨ss, 1⟩, ts ++ more, _, (List.append_assoc ..).symm, rfl, rfl, spelt⟩

end Program

end ExprLang
