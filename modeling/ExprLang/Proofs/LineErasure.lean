import ExprLang.Program.Code
import ExprLang.Proofs.ParserMoves

/-! Lines are carried along and never looked at. Taking them out of the tokens before parsing gives what taking them out
of the result gives: of the trees and of the diagnostics, whatever went wrong in between. -/

namespace ExprLang

def Token.unlined (t : Token) : Token :=
  { t with line := 0 }

def Diagnostic.unlined (d : Diagnostic) : Diagnostic :=
  { d with token := d.token.unlined }

def Expr.unlined : Expr → Expr
  | literal l _ => literal l 0
  | unary op _ operand => unary op 0 operand.unlined
  | binary op _ left right => binary op 0 left.unlined right.unlined

def Statement.unlined (s : Statement) : Statement :=
  ⟨s.expr.unlined, 0⟩

def Program.unlined (p : Program) : Program :=
  ⟨p.statements.map Statement.unlined, 0⟩

@[simp] theorem Token.unlined_kind (t : Token) : t.unlined.kind = t.kind := rfl

@[simp] theorem Token.unlined_lexeme (t : Token) : t.unlined.lexeme = t.lexeme := rfl

@[simp] theorem Literal.ofToken_unlined (t : Token) : ofToken t.unlined = ofToken t := rfl

namespace Parser

def unlined (p : Parser) : Parser where
  previous := p.previous.unlined
  current := p.current.unlined
  rest := p.rest.map Token.unlined
  pooled := p.pooled
  panicking := p.panicking
  diagnostics := p.diagnostics.map Diagnostic.unlined

@[simp] theorem unlined_previous (p : Parser) : p.unlined.previous = p.previous.unlined := rfl
@[simp] theorem unlined_current (p : Parser) : p.unlined.current = p.current.unlined := rfl
@[simp] theorem unlined_pooled (p : Parser) : p.unlined.pooled = p.pooled := rfl
@[simp] theorem unlined_panicking (p : Parser) : p.unlined.panicking = p.panicking := rfl

@[simp] theorem report_unlined (p : Parser) (t : Token) (problem : Problem) :
    p.unlined.report t.unlined problem = (p.report t problem).unlined := by
  cases panics : p.panicking <;> simp [report, unlined, panics, Diagnostic.unlined]

@[simp] theorem take_unlined (p : Parser) (ts : List Token) : p.unlined.take (ts.map Token.unlined) = (p.take ts).unlined := by
  induction ts generalizing p with
  | nil => rfl
  | cons t rest ih =>
    simp only [List.map_cons, take, Token.unlined_kind, Token.unlined_lexeme, report_unlined, ih]
    split <;> rfl

@[simp] theorem advance_unlined (p : Parser) : p.unlined.advance = p.advance.unlined :=
  take_unlined { p with previous := p.current } p.rest

theorem start_unlined (tokens : List Token) : start (tokens.map Token.unlined) = (start tokens).unlined := by
  rw [start, start, ← take_unlined]
  simp [unlined, Token.unlined]

theorem expect_unlined (p : Parser) (k : TokenKind) (problem : Problem) :
    p.unlined.expect k problem = (p.expect k problem).unlined := by
  simp only [expect, unlined_current, Token.unlined_kind, advance_unlined, report_unlined]
  split <;> rfl

/-- What was parsed and the parser behind it, both without lines. -/
def bare (parsed : Option Expr × Parser) : Option Expr × Parser :=
  (parsed.1.map Expr.unlined, parsed.2.unlined)

theorem literal_unlined (p : Parser) : p.unlined.literal = bare p.literal := by
  simp only [literal, unlined_previous, unlined_pooled, Literal.ofToken_unlined, report_unlined]
  cases Literal.ofToken p.previous with
  | error problem => rfl
  | ok l =>
    simp only
    split
    · rfl
    · split <;> rfl

private theorem conclude_unlined (floor : Precedence) (parsed : Option Expr × Parser) :
    conclude floor (bare parsed) = bare (conclude floor parsed) := by
  by_cases loose : floor.level ≤ Precedence.assignment.level <;> by_cases sign : parsed.2.current.kind = .equal <;>
    simp [conclude, bare, loose, sign]

private theorem operand_unlined {fuel : Nat}
    (nested : ∀ floor p, expression fuel floor p.unlined = bare (expression fuel floor p))
    (lead : Lead) (p : Parser) : operand fuel lead p.unlined = bare (operand fuel lead p) := by
  cases lead with
  | group => simp only [operand, nested, bare, expect_unlined]
  | unary op =>
    simp only [operand, nested, bare, Option.map_map]
    rfl
  | literal => exact literal_unlined p

/-- The two sides of an operator without their lines. -/
private theorem both_unlined (op : BinaryOp) (line : Nat) (left right : Option Expr) :
    ((left.map Expr.unlined).bind fun l => (right.map Expr.unlined).map fun r => Expr.binary op 0 l r) =
      (left.bind fun l => right.map fun r => .binary op line l r).map Expr.unlined := by
  cases left with
  | none => rfl
  | some l => cases right <;> rfl

theorem expression_unlined (fuel : Nat) :
    (∀ floor p, expression fuel floor p.unlined = bare (expression fuel floor p)) ∧
    (∀ floor left p, climb fuel floor (left.map Expr.unlined) p.unlined = bare (climb fuel floor left p)) := by
  -- The two functions call each other, so both go into the induction. A left operand comes in with its lines taken out.
  induction fuel with
  | zero =>
    refine ⟨fun floor p => ?_, fun floor left p => ?_⟩
    · rw [expression, expression]; rfl
    · rw [climb, climb]; rfl
  | succ fuel ih =>
    obtain ⟨nested, climbs⟩ := ih
    refine ⟨fun floor p => ?_, fun floor left p => ?_⟩
    · rw [expression_succ, expression_succ, unlined_current, Token.unlined_kind, advance_unlined]
      cases Lead.ofKind? p.current.kind with
      | none => simp only [report_unlined]; rfl
      | some lead =>
        simp only [operand_unlined nested]
        rw [← conclude_unlined, ← climbs]
        rfl
    · rw [climb_succ, climb_succ, unlined_current, Token.unlined_kind, advance_unlined]
      cases BinaryOp.ofKind? p.current.kind with
      | none => rfl
      | some op =>
        simp only [nested]
        split
        · rw [← climbs, ← both_unlined]
          rfl
        · rfl

theorem statement_unlined (fuel : Nat) (p : Parser) :
    statement fuel p.unlined = ((statement fuel p).1.map Statement.unlined, (statement fuel p).2.unlined) := by
  simp only [statement, unlined_current, Token.unlined_kind, advance_unlined, (expression_unlined fuel).1, bare, unlined_previous,
    Token.unlined_lexeme, report_unlined]
  split
  · rfl
  · simp only [Option.map_map]
    split
    · rfl
    · split <;> rfl

theorem skip_unlined (fuel : Nat) (p : Parser) : skip fuel p.unlined = (skip fuel p).unlined := by
  induction fuel generalizing p with
  | zero => rfl
  | succ fuel ih =>
    simp only [skip, unlined_current, unlined_previous, Token.unlined_kind, advance_unlined, ih]
    exact (apply_ite unlined _ p _).symm

theorem settle_unlined (fuel : Nat) (p : Parser) : settle fuel p.unlined = (settle fuel p).unlined := by
  rw [settle, settle, unlined_panicking, apply_ite unlined, recover, recover, ← skip_unlined]
  rfl

theorem statements_unlined (fuel : Nat) (parsed : Array Statement) (p : Parser) :
    statements fuel (parsed.map Statement.unlined) p.unlined =
      ((statements fuel parsed p).1.map Statement.unlined, (statements fuel parsed p).2.unlined) := by
  induction fuel generalizing parsed p with
  | zero => rfl
  | succ fuel ih =>
    by_cases ended : p.current.kind = .eof
    · rw [statements_ended fuel parsed p ended, statements_ended fuel _ p.unlined ended, advance_unlined]
    · rw [statements_succ fuel parsed p ended, statements_succ fuel _ p.unlined ended, ← ih, ← settle_unlined, statement_unlined]
      cases (statement fuel p).1 <;> simp

end Parser

end ExprLang
