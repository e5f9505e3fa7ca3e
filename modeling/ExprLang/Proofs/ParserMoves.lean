import ExprLang.Program.Parser
import ExprLang.Proofs.TokenStream

/-! What a parser can do within one statement. However tokens nest, all of it is a chain of three
elementary moves: going on by a token, reporting a problem, and counting a constant. What every move
keeps, parsing a statement keeps. -/

namespace ExprLang.Parser
open Token (Closed)

section Report
variable (p : Parser) (t : Token) (problem : Problem)

@[simp] theorem report_previous : (p.report t problem).previous = p.previous := by
  unfold report; split <;> rfl

@[simp] theorem report_current : (p.report t problem).current = p.current := by
  unfold report; split <;> rfl

@[simp] theorem report_rest : (p.report t problem).rest = p.rest := by
  unfold report; split <;> rfl

@[simp] theorem report_pooled : (p.report t problem).pooled = p.pooled := by
  unfold report; split <;> rfl

@[simp] theorem report_panicking : (p.report t problem).panicking = true := by
  unfold report; split <;> simp_all

theorem report_of_panicking (panics : p.panicking = true) : p.report t problem = p := by
  simp [report, panics]

theorem report_calm (calm : p.panicking = false) :
    (p.report t problem).diagnostics = p.diagnostics.push ⟨t, problem⟩ := by
  simp [report, calm]

end Report

/-- The tokens from the current one on. -/
def upcoming (p : Parser) : List Token :=
  p.current :: p.rest

/-- Of several error tokens in a row only the first can be reported. -/
def reportFirst (p : Parser) : List Token → Parser
  | [] => p
  | e :: _ => p.report e (.lexical e.lexeme)

private theorem take_errors (p : Parser) (errors : List Token) (t : Token) (rest : List Token)
    (lexical : ∀ e ∈ errors, e.kind = .error) (valid : t.kind ≠ .error) :
    take p (errors ++ t :: rest) = { p.reportFirst errors with current := t, rest := rest } := by
  induction errors generalizing p with
  | nil => simp [take, valid, reportFirst]
  | cons e errors ih =>
    have first : e.kind = .error := lexical e (by simp)
    have silent : (p.report e (.lexical e.lexeme)).reportFirst errors = p.report e (.lexical e.lexeme) := by
      cases errors with
      | nil => rfl
      | cons next _ => exact report_of_panicking _ _ _ (by simp)
    simp only [List.cons_append, take, first, if_true]
    rw [ih _ (fun u member => lexical u (by simp [member])), silent, reportFirst]

private theorem next_valid {ts : List Token} (closed : Closed ts) :
    ∃ errors t rest, ts = errors ++ t :: rest ∧ (∀ e ∈ errors, e.kind = .error) ∧ t.kind ≠ .error := by
  induction ts with
  | nil => exact closed.elim
  | cons t rest ih =>
    by_cases lexical : t.kind = .error
    · obtain ⟨errors, u, more, rfl, others, valid⟩ := ih (closed.rest_closed (by simp [lexical]))
      refine ⟨t :: errors, u, more, rfl, ?_, valid⟩
      intro e member
      rcases List.mem_cons.mp member with rfl | member
      · exact lexical
      · exact others e member
    · exact ⟨[], t, rest, rfl, by simp, lexical⟩

/-- The parser after a token and the error tokens before it. -/
def passTo (p : Parser) (errors : List Token) (t : Token) (rest : List Token) : Parser :=
  { p.reportFirst errors with previous := p.current, current := t, rest := rest }

theorem advance_passes (p : Parser) (errors : List Token) (t : Token) (rest : List Token)
    (same : p.rest = errors ++ t :: rest) (lexical : ∀ e ∈ errors, e.kind = .error)
    (valid : t.kind ≠ .error) : p.advance = p.passTo errors t rest := by
  rw [advance, same, take_errors _ errors t rest lexical valid, passTo]
  cases errors with
  | nil => rfl
  | cons e _ =>
    simp only [reportFirst, report]
    split <;> rfl

/-- All that going on by a token can do. At the end token the parser stays where it is. -/
theorem advance_cases {p : Parser} (closed : Closed p.upcoming) :
    (p.current.kind = .eof ∧ p.rest = [] ∧ p.advance = { p with previous := p.current }) ∨
    (p.current.kind ≠ .eof ∧ ∃ errors t rest, p.rest = errors ++ t :: rest ∧
      (∀ e ∈ errors, e.kind = .error) ∧ t.kind ≠ .error ∧ p.advance = p.passTo errors t rest) := by
  by_cases ended : p.current.kind = .eof
  · have last : p.rest = [] := closed.rest_eq_nil ended
    refine Or.inl ⟨ended, last, ?_⟩
    simp only [advance, last, take]
  · obtain ⟨errors, t, rest, same, lexical, valid⟩ := next_valid (closed.rest_closed ended)
    exact Or.inr ⟨ended, errors, t, rest, same, lexical, valid, advance_passes p errors t rest same lexical valid⟩

@[simp] theorem take_previous (p : Parser) (ts : List Token) : (take p ts).previous = p.previous := by
  induction ts generalizing p with
  | nil => rfl
  | cons t rest ih =>
    rw [take]
    split
    · rw [ih, report_previous]
    · rfl

@[simp] theorem take_pooled (p : Parser) (ts : List Token) : (take p ts).pooled = p.pooled := by
  induction ts generalizing p with
  | nil => rfl
  | cons t rest ih =>
    rw [take]
    split
    · rw [ih, report_pooled]
    · rfl

theorem take_suffix (p : Parser) (ts : List Token) : (take p ts).rest <:+ ts := by
  induction ts generalizing p with
  | nil => exact List.suffix_refl _
  | cons t rest ih =>
    rw [take]
    split
    · exact (ih _).trans (List.suffix_cons t rest)
    · exact List.suffix_cons t rest

@[simp] theorem advance_previous (p : Parser) : p.advance.previous = p.current := by
  simp [advance]

@[simp] theorem advance_pooled (p : Parser) : p.advance.pooled = p.pooled := by
  simp [advance]

/-- The parser at the first token. It is ready, unless error tokens come before all others. -/
theorem start_cases {tokens : List Token} (closed : Closed tokens) :
    (∃ t rest, tokens = t :: rest ∧ t.kind ≠ .error ∧ start tokens = ⟨⟨.eof, [], 0⟩, t, rest, 0, false, #[]⟩) ∨
    (∃ e errors t rest, tokens = e :: errors ++ t :: rest ∧ (∀ u ∈ e :: errors, u.kind = .error) ∧ t.kind ≠ .error ∧
      start tokens = ⟨⟨.eof, [], 0⟩, t, rest, 0, true, #[⟨e, .lexical e.lexeme⟩]⟩) := by
  obtain ⟨errors, t, rest, rfl, lexical, valid⟩ := next_valid closed
  simp only [start, take_errors _ errors t rest lexical valid]
  cases errors with
  | nil => exact Or.inl ⟨t, rest, rfl, valid, rfl⟩
  | cons e errors => exact Or.inr ⟨e, errors, t, rest, rfl, lexical, valid, rfl⟩

/-- The elementary moves in a chain. A problem is reported at the token just passed or at the next
one, and constants are counted only while the pool has room. -/
inductive Reaches (p : Parser) : Parser → Prop
  | refl : Reaches p p
  | advance {q : Parser} : Reaches p q → Reaches p q.advance
  | report {q : Parser} {t : Token} {problem : Problem} :
      Reaches p q → t = q.previous ∨ t = q.current → Reaches p (q.report t problem)
  | pool {q : Parser} :
      Reaches p q → q.pooled < Chunk.poolLimit → Reaches p { q with pooled := q.pooled + 1 }

theorem Reaches.trans {p q r : Parser} (first : Reaches p q) (second : Reaches q r) : Reaches p r := by
  induction second with
  | refl => exact first
  | advance _ ih => exact .advance ih
  | report _ near ih => exact .report ih near
  | pool _ room ih => exact .pool ih room

theorem reaches_advance (p : Parser) : Reaches p p.advance :=
  .advance .refl

/-- The parts of an expression: its first operand, what follows it, and the check for an assignment. -/
def operand (fuel : Nat) (lead : Lead) (p : Parser) : Option Expr × Parser :=
  match lead with
  | .group =>
    let inner := expression fuel .assignment p
    (inner.1, inner.2.expect .rightParen .expectParen)
  | .unary op =>
    let inner := expression fuel .unary p
    (inner.1.map (Expr.unary op p.previous.line), inner.2)
  | .literal => p.literal

def conclude (floor : Precedence) (parsed : Option Expr × Parser) : Option Expr × Parser :=
  if floor.level ≤ Precedence.assignment.level && parsed.2.current.kind = .equal then
    (none, parsed.2.advance.report parsed.2.current .invalidTarget)
  else parsed

theorem expression_succ (fuel : Nat) (floor : Precedence) (p : Parser) :
    expression (fuel + 1) floor p =
      match Lead.ofKind? p.current.kind with
      | none => (none, p.advance.report p.current .expectExpression)
      | some lead =>
        let first := operand fuel lead p.advance
        conclude floor (climb fuel floor first.1 first.2) := by
  rw [expression, advance_previous]
  cases Lead.ofKind? p.current.kind with
  | none => rfl
  | some lead =>
    cases lead with
    | group | literal =>
      simp only [operand, conclude, advance_previous]
      rfl
    | unary op => simp only [operand, conclude, advance_previous]

theorem climb_succ (fuel : Nat) (floor : Precedence) (left : Option Expr) (p : Parser) :
    climb (fuel + 1) floor left p =
      match BinaryOp.ofKind? p.current.kind with
      | none => (left, p)
      | some op =>
        if floor.level ≤ op.precedence.level then
          let right := expression fuel op.precedence.next p.advance
          climb fuel floor (left.bind fun l => right.1.map fun r => .binary op p.current.line l r) right.2
        else (left, p) := by
  rw [climb]
  cases BinaryOp.ofKind? p.current.kind with
  | none => rfl
  | some op => simp only [advance_previous]

theorem expect_reaches (p : Parser) (k : TokenKind) (problem : Problem) : Reaches p (p.expect k problem) := by
  unfold expect
  split
  · exact reaches_advance p
  · exact .report .refl (Or.inr rfl)

private theorem literal_reaches (p : Parser) : Reaches p p.literal.2 := by
  unfold literal
  split
  · exact .report .refl (Or.inl rfl)
  · split
    · exact .refl
    · split
      next room => exact .pool .refl room
      · exact .report .refl (Or.inl rfl)

theorem conclude_reaches (floor : Precedence) (parsed : Option Expr × Parser) :
    Reaches parsed.2 (conclude floor parsed).2 := by
  unfold conclude
  split
  · exact .report (reaches_advance _) (Or.inl (advance_previous _).symm)
  · exact .refl

private theorem operand_reaches_of {fuel : Nat} (nested : ∀ floor p, Reaches p (expression fuel floor p).2)
    (lead : Lead) (p : Parser) : Reaches p (operand fuel lead p).2 := by
  cases lead with
  | group => exact (nested _ p).trans (expect_reaches _ _ _)
  | unary op => exact nested _ p
  | literal => exact literal_reaches p

theorem expression_reaches (fuel : Nat) :
    (∀ floor p, Reaches p (expression fuel floor p).2) ∧ (∀ floor left p, Reaches p (climb fuel floor left p).2) := by
  induction fuel with
  | zero =>
    refine ⟨fun floor p => ?_, fun floor left p => ?_⟩
    · rw [expression]; exact .refl
    · rw [climb]; exact .refl
  | succ fuel ih =>
    obtain ⟨nested, climbs⟩ := ih
    refine ⟨fun floor p => ?_, fun floor left p => ?_⟩
    · rw [expression_succ]
      split
      · exact .report (reaches_advance p) (Or.inl (advance_previous p).symm)
      next lead _ =>
        have first := (reaches_advance p).trans (operand_reaches_of nested lead _)
        exact (first.trans (climbs floor _ _)).trans (conclude_reaches floor _)
    · rw [climb_succ]
      split
      · exact .refl
      · split
        · exact ((reaches_advance p).trans (nested _ _)).trans (climbs floor _ _)
        · exact .refl

theorem operand_reaches (fuel : Nat) (lead : Lead) (p : Parser) : Reaches p (operand fuel lead p).2 :=
  operand_reaches_of (expression_reaches fuel).1 lead p

/-- Given fuel, an expression takes its first token whatever comes of it. -/
theorem expression_takes {fuel : Nat} (floor : Precedence) (p : Parser) (paid : 0 < fuel) :
    Reaches p.advance (expression fuel floor p).2 := by
  obtain ⟨fuel, rfl⟩ : ∃ n, fuel = n + 1 := ⟨fuel - 1, by omega⟩
  obtain ⟨nested, climbs⟩ := expression_reaches fuel
  rw [expression_succ]
  split
  · exact .report .refl (Or.inl (advance_previous p).symm)
  next lead _ =>
    exact ((operand_reaches_of nested lead _).trans (climbs floor _ _)).trans (conclude_reaches floor _)

/-- How a statement goes on behind its expression. -/
def finish (parsed : Option Expr × Parser) : Option Statement × Parser :=
  let p := parsed.2
  let done :=
    if p.current.kind = .semicolon then p.advance
    else if p.current.kind = .eof then p
    else p.report p.current .expectSemicolon
  (parsed.1.map fun e => ⟨e, done.previous.line⟩, done)

theorem statement_eq (fuel : Nat) (p : Parser) :
    statement fuel p =
      if beginsStatement p.current.kind then
        (none, p.advance.report p.current (.unsupportedStatement p.current.lexeme))
      else finish (expression fuel .assignment p) := by
  simp [statement, finish]

theorem finish_reaches (parsed : Option Expr × Parser) : Reaches parsed.2 (finish parsed).2 := by
  unfold finish
  simp only
  split
  · exact reaches_advance _
  · split
    · exact .refl
    · exact .report .refl (Or.inr rfl)

private theorem statement_reaches_of {fuel : Nat} {origin p : Parser} (moved : Reaches origin p.advance)
    (inner : Reaches origin (expression fuel .assignment p).2) : Reaches origin (statement fuel p).2 := by
  rw [statement_eq]
  split
  · exact .report moved (Or.inl (advance_previous p).symm)
  · exact inner.trans (finish_reaches _)

theorem statement_reaches (fuel : Nat) (p : Parser) : Reaches p (statement fuel p).2 :=
  statement_reaches_of (reaches_advance p) ((expression_reaches fuel).1 .assignment p)

theorem statement_takes {fuel : Nat} (p : Parser) (paid : 0 < fuel) : Reaches p.advance (statement fuel p).2 :=
  statement_reaches_of .refl (expression_takes .assignment p paid)

theorem skip_reaches (fuel : Nat) (p : Parser) : Reaches p (skip fuel p) := by
  induction fuel generalizing p with
  | zero => exact .refl
  | succ fuel ih =>
    rw [skip]
    split
    · exact .refl
    · exact (reaches_advance p).trans (ih _)

/-- What becomes of the reports of a parser that does not recover: nothing, or its first problem is
reported and the panic begins. -/
def Reports (p q : Parser) : Prop :=
  (q.panicking = p.panicking ∧ q.diagnostics = p.diagnostics) ∨
  (p.panicking = false ∧ q.panicking = true ∧ ∃ d, q.diagnostics = p.diagnostics.push d)

namespace Reports

theorem trans {p q r : Parser} (first : Reports p q) (second : Reports q r) : Reports p r := by
  rcases first with ⟨flag, same⟩ | ⟨calm, panics, d, more⟩
  · rcases second with ⟨flag', same'⟩ | ⟨calm', panics', d', more'⟩
    · exact Or.inl ⟨flag'.trans flag, same'.trans same⟩
    · exact Or.inr ⟨flag ▸ calm', panics', d', by rw [more', same]⟩
  · rcases second with ⟨flag', same'⟩ | ⟨calm', _⟩
    · exact Or.inr ⟨calm, flag'.trans panics, d, by rw [same', more]⟩
    · simp [panics] at calm'

theorem report (p : Parser) (t : Token) (problem : Problem) : Reports p (p.report t problem) := by
  by_cases panics : p.panicking = true
  · rw [report_of_panicking p t problem panics]
    exact Or.inl ⟨rfl, rfl⟩
  · have calm : p.panicking = false := by simpa using panics
    exact Or.inr ⟨calm, by simp, _, report_calm p t problem calm⟩

theorem take (p : Parser) (ts : List Token) : Reports p (p.take ts) := by
  induction ts generalizing p with
  | nil => exact Or.inl ⟨rfl, rfl⟩
  | cons t rest ih =>
    rw [Parser.take]
    split
    · exact (report p t _).trans (ih _)
    · exact Or.inl ⟨rfl, rfl⟩

theorem keeps {p q : Parser} (reports : Reports p q) : p.diagnostics.toList <+: q.diagnostics.toList := by
  rcases reports with ⟨_, same⟩ | ⟨_, _, d, more⟩
  · exact same.symm ▸ List.prefix_refl _
  · rw [more, Array.toList_push]
    exact List.prefix_append _ _

end Reports

namespace Reaches

theorem reports {p q : Parser} (moves : Reaches p q) : Reports p q := by
  induction moves with
  | refl => exact Or.inl ⟨rfl, rfl⟩
  | @advance q _ ih => exact ih.trans (Reports.take { q with previous := q.current } q.rest)
  | report _ _ ih => exact ih.trans (Reports.report _ _ _)
  | pool _ _ ih => exact ih.trans (Or.inl ⟨rfl, rfl⟩)

theorem calm {p q : Parser} (moves : Reaches p q) (calm : q.panicking = false) :
    p.panicking = false ∧ q.diagnostics = p.diagnostics := by
  rcases moves.reports with ⟨flag, same⟩ | ⟨_, panics, _⟩
  · exact ⟨flag ▸ calm, same⟩
  · simp [panics] at calm

theorem closed {p q : Parser} (moves : Reaches p q) (closed : Closed p.upcoming) : Closed q.upcoming := by
  induction moves with
  | refl => exact closed
  | @advance q _ ih =>
    rcases advance_cases ih with ⟨_, _, same⟩ | ⟨more, errors, t, rest, front, lexical, valid, same⟩
    · rw [same]
      exact ih
    · rw [same]
      have remaining : Closed (errors ++ t :: rest) := front ▸ ih.rest_closed more
      exact remaining.of_append (fun e member => by simp [lexical e member])
  | report _ _ ih => simpa [upcoming] using ih
  | pool _ _ ih => exact ih

theorem rest_suffix {p q : Parser} (moves : Reaches p q) : q.rest <:+ p.rest := by
  induction moves with
  | refl => exact List.suffix_refl _
  | advance _ ih => exact (take_suffix _ _).trans ih
  | report _ _ ih => simpa using ih
  | pool _ _ ih => exact ih

theorem upcoming_suffix {p q : Parser} (moves : Reaches p q) (closed : Closed p.upcoming) : q.upcoming <:+ p.upcoming := by
  induction moves with
  | refl => exact List.suffix_refl _
  | @advance q moves ih =>
    rcases advance_cases (moves.closed closed) with ⟨_, _, same⟩ | ⟨_, errors, t, rest, front, _, _, same⟩
    · rw [same]
      exact ih
    · have behind : q.advance.upcoming <:+ q.upcoming := ⟨q.current :: errors, by simp [same, upcoming, passTo, front]⟩
      exact behind.trans ih
  | report _ _ ih => simpa [upcoming] using ih
  | pool _ _ ih => exact ih

theorem pooled_le {p q : Parser} (moves : Reaches p q) (room : p.pooled ≤ Chunk.poolLimit) :
    q.pooled ≤ Chunk.poolLimit := by
  induction moves with
  | refl => exact room
  | advance _ ih => simpa using ih
  | report _ _ ih => simpa using ih
  | pool _ left _ => exact left

end Reaches

theorem advance_shortens {p : Parser} (closed : Closed p.upcoming) (more : p.current.kind ≠ .eof) :
    p.advance.rest.length < p.rest.length := by
  rcases advance_cases closed with ⟨ended, _⟩ | ⟨_, errors, t, rest, front, _, _, same⟩
  · exact absurd ended more
  · rw [same, front]
    simp only [passTo, List.length_append, List.length_cons]
    omega

/-- After a statement a panic is ended at the next statement. -/
def settle (fuel : Nat) (p : Parser) : Parser :=
  if p.panicking then recover fuel p else p

theorem settle_calm (fuel : Nat) {p : Parser} (calm : p.panicking = false) : settle fuel p = p := by
  simp [settle, calm]

theorem statements_succ (fuel : Nat) (parsed : Array Statement) (p : Parser) (more : p.current.kind ≠ .eof) :
    statements (fuel + 1) parsed p =
      statements fuel (parsed ++ (statement fuel p).1.toArray) (settle fuel (statement fuel p).2) := by
  rw [statements, if_neg more]
  cases statement fuel p with
  | mk s q => cases s <;> simp [settle]

theorem statements_ended (fuel : Nat) (parsed : Array Statement) (p : Parser) (ended : p.current.kind = .eof) :
    statements (fuel + 1) parsed p = (parsed, p.advance) := by
  rw [statements, if_pos ended]

theorem expression_shortens {fuel : Nat} (floor : Precedence) {p : Parser} (closed : Closed p.upcoming)
    (more : p.current.kind ≠ .eof) (paid : 0 < fuel) : (expression fuel floor p).2.rest.length < p.rest.length :=
  Nat.lt_of_le_of_lt (expression_takes floor p paid).rest_suffix.length_le (advance_shortens closed more)

/-- A statement takes at least one token, so that the loop over statements comes to an end. -/
theorem statement_shortens (fuel : Nat) {p : Parser} (closed : Closed p.upcoming)
    (more : p.current.kind ≠ .eof) (paid : 0 < fuel) : (statement fuel p).2.rest.length < p.rest.length :=
  Nat.lt_of_le_of_lt (statement_takes p paid).rest_suffix.length_le (advance_shortens closed more)

end ExprLang.Parser
