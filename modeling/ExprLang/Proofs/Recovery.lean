import Mathlib
import ExprLang.Proofs.Acceptance

/-! Recovery from a problem. The panic ends before the rest of the statement is skipped, and an error token
among what is skipped starts another one. The next statement then begins in a panic, and its own
problem is lost. -/

namespace ExprLang.Parser
open Token (Closed)

def AtBoundary (p : Parser) : Prop :=
  p.current.kind = .eof ∨ p.previous.kind = .semicolon ∨ beginsStatement p.current.kind = true

theorem passTo_panicking (p : Parser) (errors : List Token) (t : Token) (rest : List Token) :
    (p.passTo errors t rest).panicking = true ↔ p.panicking = true ∨ errors ≠ [] := by
  cases errors with
  | nil => simp [passTo, reportFirst]
  | cons e errors => simp [passTo, reportFirst]

/-- Skipping stops at a boundary. It starts a panic if it comes over an error token. -/
theorem skip_stops (fuel : Nat) {p : Parser} (closed : Closed p.upcoming) (paid : p.rest.length < fuel) :
    (skip fuel p).AtBoundary ∧ ∃ skipped, p.rest = skipped ++ (skip fuel p).rest ∧
      ((skip fuel p).panicking = true ↔ p.panicking = true ∨ ∃ t ∈ skipped, t.kind = .error) := by
  induction fuel generalizing p with
  | zero => exact absurd paid (Nat.not_lt_zero _)
  | succ fuel ih =>
    rw [skip]
    split
    next stops =>
      refine ⟨?_, [], rfl, by simp⟩
      simpa [AtBoundary, or_assoc] using stops
    next goes =>
      have further : p.current.kind ≠ .eof := by
        intro ended
        simp [ended] at goes
      have shorter := advance_shortens closed further
      obtain ⟨boundary, skipped, front, flag⟩ := ih ((reaches_advance p).closed closed) (by omega)
      refine ⟨boundary, ?_⟩
      rcases advance_cases closed with ⟨ended, _⟩ | ⟨_, errors, t, rest, here, lexical, valid, same⟩
      · exact absurd ended further
      · have behind : p.advance.rest = rest := by rw [same, passTo]
        refine ⟨errors ++ t :: skipped, by rw [here, ← behind, front]; simp, ?_⟩
        -- The error tokens before a token are reported by the move to it, so they count as skipped with it.
        have erring : (∃ u ∈ errors ++ t :: skipped, u.kind = .error) ↔ errors ≠ [] ∨ ∃ u ∈ skipped, u.kind = .error := by
          cases errors with
          | nil => simp [valid]
          | cons e errors => simp [lexical e (by simp)]
        rw [flag, same, passTo_panicking, erring, or_assoc]

theorem recover_stops (fuel : Nat) {p : Parser} (closed : Closed p.upcoming) (paid : p.rest.length < fuel) :
    (recover fuel p).AtBoundary ∧ ∃ skipped, p.rest = skipped ++ (recover fuel p).rest ∧
      ((recover fuel p).panicking = false ↔ ∀ t ∈ skipped, t.kind ≠ .error) := by
  have calmed : Closed ({ p with panicking := false } : Parser).upcoming := closed
  obtain ⟨boundary, skipped, front, flag⟩ := skip_stops fuel calmed paid
  refine ⟨boundary, skipped, front, ?_⟩
  rw [← Bool.not_eq_true, recover, flag]
  simp

/-- The parser with diagnostics from before. -/
def after (ds : Array Diagnostic) (p : Parser) : Parser :=
  { p with diagnostics := ds ++ p.diagnostics }

section After
variable (ds : Array Diagnostic)

@[simp] theorem after_current (p : Parser) : (p.after ds).current = p.current := rfl
@[simp] theorem after_previous (p : Parser) : (p.after ds).previous = p.previous := rfl
@[simp] theorem after_pooled (p : Parser) : (p.after ds).pooled = p.pooled := rfl

@[simp] theorem report_after (p : Parser) (t : Token) (problem : Problem) :
    (p.after ds).report t problem = (p.report t problem).after ds := by
  cases panics : p.panicking <;> simp [report, after, panics]

@[simp] theorem take_after (p : Parser) (ts : List Token) : (p.after ds).take ts = (p.take ts).after ds := by
  induction ts generalizing p with
  | nil => rfl
  | cons t rest ih =>
    rw [take, take]
    split
    · rw [report_after, ih]
    · rfl

@[simp] theorem advance_after (p : Parser) : (p.after ds).advance = p.advance.after ds :=
  take_after ds { p with previous := p.current } p.rest

theorem expect_after (p : Parser) (k : TokenKind) (problem : Problem) :
    (p.after ds).expect k problem = (p.expect k problem).after ds := by
  simp only [expect, after_current, advance_after, report_after]
  split <;> rfl

theorem literal_after (p : Parser) : (p.after ds).literal = (p.literal.1, p.literal.2.after ds) := by
  simp only [literal, after_previous, after_pooled, report_after]
  cases Literal.ofToken p.previous with
  | error problem => rfl
  | ok l =>
    simp only
    split
    · rfl
    · split <;> rfl

private theorem conclude_after (floor : Precedence) (parsed : Option Expr × Parser) :
    conclude floor (parsed.1, parsed.2.after ds) = ((conclude floor parsed).1, (conclude floor parsed).2.after ds) := by
  by_cases loose : floor.level ≤ Precedence.assignment.level <;> by_cases sign : parsed.2.current.kind = .equal <;>
    simp [conclude, loose, sign]

private theorem operand_after {fuel : Nat}
    (nested : ∀ floor p,
      expression fuel floor (p.after ds) = ((expression fuel floor p).1, (expression fuel floor p).2.after ds))
    (lead : Lead) (p : Parser) :
    operand fuel lead (p.after ds) = ((operand fuel lead p).1, (operand fuel lead p).2.after ds) := by
  cases lead with
  | group => simp only [operand, nested, expect_after]
  | unary op => simp only [operand, nested, after_previous]
  | literal => exact literal_after ds p

/-- Earlier diagnostics change nothing in how an expression is parsed. -/
theorem expression_after (fuel : Nat) :
    (∀ floor p,
      expression fuel floor (p.after ds) = ((expression fuel floor p).1, (expression fuel floor p).2.after ds)) ∧
    (∀ floor left p,
      climb fuel floor left (p.after ds) = ((climb fuel floor left p).1, (climb fuel floor left p).2.after ds)) := by
  induction fuel with
  | zero =>
    refine ⟨fun floor p => ?_, fun floor left p => ?_⟩
    · rw [expression, expression]
    · rw [climb, climb]
  | succ fuel ih =>
    obtain ⟨nested, climbs⟩ := ih
    refine ⟨fun floor p => ?_, fun floor left p => ?_⟩
    · rw [expression_succ, expression_succ, after_current, advance_after]
      cases Lead.ofKind? p.current.kind with
      | none => simp only [report_after]
      | some lead => simp only [operand_after ds nested, climbs, conclude_after]
    · rw [climb_succ, climb_succ, after_current, advance_after]
      cases BinaryOp.ofKind? p.current.kind with
      | none => rfl
      | some op =>
        simp only [nested, climbs]
        split <;> rfl

theorem statement_after (fuel : Nat) (p : Parser) :
    statement fuel (p.after ds) = ((statement fuel p).1, (statement fuel p).2.after ds) := by
  simp only [statement, after_current, advance_after, (expression_after ds fuel).1, after_previous, report_after]
  split
  · rfl
  · split
    · rfl
    · split <;> rfl

end After

/-- The first problem of a statement, as a parser reports it that is in no panic and has nothing reported yet. -/
def problem? (fuel : Nat) (p : Parser) : Option Diagnostic :=
  (statement fuel { p with panicking := false, diagnostics := #[] }).2.diagnostics[0]?

theorem statement_of_panicking (fuel : Nat) {p : Parser} (panics : p.panicking = true) :
    (statement fuel p).2.diagnostics = p.diagnostics := by
  rcases (statement_reaches fuel p).reports with ⟨_, same⟩ | ⟨calm, _⟩
  · exact same
  · simp [panics] at calm

theorem statement_of_calm (fuel : Nat) {p : Parser} (calm : p.panicking = false) {d : Diagnostic}
    (found : problem? fuel p = some d) : (statement fuel p).2.diagnostics = p.diagnostics.push d := by
  have fresh : p = after p.diagnostics { p with panicking := false, diagnostics := #[] } := by
    obtain ⟨previous, current, rest, pooled, panicking, diagnostics⟩ := p
    simpa [after] using calm
  unfold problem? at found
  rcases (statement_reaches fuel { p with panicking := false, diagnostics := #[] }).reports with ⟨_, same⟩ | ⟨_, _, e, more⟩
  · simp [same] at found
  · obtain rfl : e = d := by simpa [more] using found
    rw [fresh, statement_after]
    simp [after, more]

/-- The parsers before the statements of a program, each with the fuel for its statement. -/
inductive Visits (tokens : List Token) : Nat → Parser → Prop
  | start : Visits tokens (tokens.length + 3) (start tokens)
  | next {fuel : Nat} {p : Parser} :
      Visits tokens (fuel + 1) p → p.current.kind ≠ .eof →
      Visits tokens fuel (settle (fuel + 1) (statement (fuel + 1) p).2)

structure Ready (fuel : Nat) (p : Parser) : Prop where
  closed : Closed p.upcoming
  paid : p.rest.length < fuel
  noted : p.panicking = true → p.diagnostics ≠ #[]

theorem Reports.noted {p q : Parser} (reports : Reports p q) (noted : p.panicking = true → p.diagnostics ≠ #[]) :
    q.panicking = true → q.diagnostics ≠ #[] := by
  rcases reports with ⟨flag, same⟩ | ⟨_, _, d, more⟩
  · rw [flag, same]
    exact noted
  · simp [more]

theorem settle_reaches (fuel : Nat) (p : Parser) :
    ∃ q, Reaches q (settle fuel p) ∧ q.upcoming = p.upcoming ∧ q.diagnostics = p.diagnostics ∧
      (q.panicking = true → p.panicking = true) := by
  unfold settle
  split
  · exact ⟨{ p with panicking := false }, skip_reaches fuel _, rfl, rfl, by simp⟩
  · exact ⟨p, .refl, rfl, rfl, id⟩

theorem settle_length (fuel : Nat) (p : Parser) : (settle fuel p).rest.length ≤ p.rest.length := by
  obtain ⟨q, moves, same, _⟩ := settle_reaches fuel p
  rw [← (List.cons.inj same).2]
  exact moves.rest_suffix.length_le

namespace Visits

/-- A visited parser is a stage of parsing the program. -/
theorem parses {tokens : List Token} {fuel : Nat} {p : Parser} (visited : Visits tokens fuel p) :
    ∃ parsed, statements (fuelFor tokens) #[] (Parser.start tokens) = statements (fuel + 1) parsed p := by
  induction visited with
  | start => exact ⟨#[], rfl⟩
  | next _ more ih =>
    obtain ⟨parsed, same⟩ := ih
    exact ⟨_, same.trans (statements_succ _ parsed _ more)⟩

theorem ready {tokens : List Token} (closed : Closed tokens) {fuel : Nat} {p : Parser} (visited : Visits tokens fuel p) :
    Ready fuel p := by
  induction visited with
  | start =>
    rcases start_cases closed with ⟨t, rest, rfl, _, ready⟩ | ⟨e, errors, t, rest, rfl, lexical, _, ready⟩
    · rw [ready]
      refine ⟨closed, ?_, by simp⟩
      simp only [List.length_cons]
      omega
    · rw [ready]
      refine ⟨closed.of_append fun u member => by simp [lexical u member], ?_, by simp⟩
      simp only [List.length_append, List.length_cons]
      omega
  | @next fuel p visited more ih =>
    have shorter := statement_shortens (fuel + 1) ih.closed more (Nat.succ_pos fuel)
    have paid := ih.paid
    obtain ⟨q, moves, same, kept, flag⟩ := settle_reaches (fuel + 1) (statement (fuel + 1) p).2
    have reports := (statement_reaches (fuel + 1) p).reports
    refine ⟨moves.closed (same ▸ (statement_reaches (fuel + 1) p).closed ih.closed), ?_, ?_⟩
    · have skipped := settle_length (fuel + 1) (statement (fuel + 1) p).2
      omega
    · refine moves.reports.noted fun panics => ?_
      rw [kept]
      exact reports.noted ih.noted (flag panics)

/-- Parsing ends with a visited parser at the end token. -/
theorem ends {tokens : List Token} (closed : Closed tokens) {fuel : Nat} {p : Parser} (visited : Visits tokens fuel p)
    (parsed : Array Statement) :
    ∃ left q all, Visits tokens left q ∧ q.current.kind = .eof ∧
      statements (fuel + 1) parsed p = (all, { q with previous := q.current }) := by
  induction fuel generalizing p parsed with
  | zero => exact absurd (visited.ready closed).paid (Nat.not_lt_zero _)
  | succ fuel ih =>
    by_cases ended : p.current.kind = .eof
    · exact ⟨fuel + 1, p, parsed, visited, ended, (statements_at_end (fuel + 1) parsed (visited.ready closed).closed ended).2⟩
    · rw [statements_succ (fuel + 1) parsed p ended]
      exact ih (visited.next ended) _

end Visits

/-- What a visited parser has reported after its statement stands first among the diagnostics of the program. -/
theorem Visits.reported {source : Text} {fuel : Nat} {p : Parser} (visited : Visits (Token.all source) fuel p)
    (more : p.current.kind ≠ .eof) (noted : p.diagnostics ≠ #[]) :
    ∃ ds, compile source = .error ds ∧ (statement fuel p).2.diagnostics.toList <+: ds := by
  obtain ⟨parsed, same⟩ := visited.parses
  rw [statements_succ _ _ _ more] at same
  have kept := (settle_keeps fuel (statement fuel p).2).trans
    (statements_keep fuel (parsed ++ (statement fuel p).1.toArray) (settle fuel (statement fuel p).2))
  rw [← same] at kept
  have unclean : (statements (fuelFor (Token.all source)) #[] (Parser.start (Token.all source))).2.diagnostics ≠ #[] := by
    intro clean
    have all := (statement_reaches fuel p).reports.keeps.trans kept
    rw [clean] at all
    exact noted (by simpa using all)
  exact ⟨_, by simp only [compile, Program.parse_eq, if_neg unclean, Except.map], kept⟩

/-- After a problem the next statement begins without a panic, and its own problem is reported, exactly if
no error token was skipped on the way there. -/
theorem recovery_reports_iff {source : Text} {fuel : Nat} {p : Parser} (visited : Visits (Token.all source) (fuel + 1) p)
    (more : p.current.kind ≠ .eof) (panics : (statement (fuel + 1) p).2.panicking = true) :
    let stuck := (statement (fuel + 1) p).2
    let next := recover (fuel + 1) stuck
    next.AtBoundary ∧ ∃ skipped, stuck.rest = skipped ++ next.rest ∧
      (next.panicking = false ↔ ∀ t ∈ skipped, t.kind ≠ .error) ∧
      (next.current.kind ≠ .eof →
        (∃ ds, compile source = .error ds ∧ (statement fuel next).2.diagnostics.toList <+: ds) ∧
        ∀ d, problem? fuel next = some d →
          ((statement fuel next).2.diagnostics = next.diagnostics.push d ↔ ∀ t ∈ skipped, t.kind ≠ .error)) := by
  intro stuck next
  have here := visited.ready (Token.closed_all source)
  have moves := statement_reaches (fuel + 1) p
  have shorter := statement_shortens (fuel + 1) here.closed more (Nat.succ_pos fuel)
  have following : Visits (Token.all source) fuel next := by
    have settled := visited.next more
    rwa [settle, if_pos panics] at settled
  obtain ⟨boundary, skipped, front, calm⟩ :=
    recover_stops (fuel + 1) (moves.closed here.closed) (Nat.lt_trans shorter here.paid)
  refine ⟨boundary, skipped, front, calm, ?_⟩
  intro going
  have noted : next.diagnostics ≠ #[] := by
    have kept : stuck.diagnostics.toList <+: next.diagnostics.toList :=
      (skip_reaches (fuel + 1) { stuck with panicking := false }).reports.keeps
    intro clean
    rw [clean] at kept
    exact moves.reports.noted here.noted panics (by simpa using kept)
  refine ⟨following.reported going noted, ?_⟩
  intro d found
  rw [← calm]
  constructor
  · intro recorded
    apply Bool.eq_false_of_not_eq_true
    intro panicking
    rw [statement_of_panicking fuel panicking] at recorded
    -- In a panic nothing is added, but the diagnostics have become longer.
    have sizes := congrArg Array.size recorded
    rw [Array.size_push] at sizes
    exact Nat.succ_ne_self _ sizes.symm
  · intro quiet
    exact statement_of_calm fuel quiet found

theorem operand_problem_lost :
    let next := recover 9 (statement 9 (start (Token.all (utf8 "1 2 @; )")))).2
    next.panicking = true ∧ ∃ d, d.problem = .expectExpression ∧ problem? 8 next = some d ∧
      (statement 8 next).2.diagnostics ≠ next.diagnostics.push d := by
  have visited : Visits (Token.all (utf8 "1 2 @; )")) (8 + 1) (start (Token.all (utf8 "1 2 @; )"))) := by
    have all : (Token.all (utf8 "1 2 @; )")).length + 3 = 8 + 1 := by cbv
    exact all ▸ .start
  have more : (start (Token.all (utf8 "1 2 @; )"))).current.kind ≠ .eof := by cbv; decide
  have panics : (statement 9 (start (Token.all (utf8 "1 2 @; )")))).2.panicking = true := by cbv
  have again : (recover 9 (statement 9 (start (Token.all (utf8 "1 2 @; )")))).2).panicking = true := by cbv
  have going : (recover 9 (statement 9 (start (Token.all (utf8 "1 2 @; )")))).2).current.kind ≠ .eof := by cbv; decide
  have found : problem? 8 (recover 9 (statement 9 (start (Token.all (utf8 "1 2 @; )")))).2) =
      some ⟨⟨.rightParen, utf8 ")", 1⟩, .expectExpression⟩ := by cbv
  obtain ⟨_, skipped, _, calm, reports⟩ := recovery_reports_iff visited more panics
  refine ⟨again, _, rfl, found, ?_⟩
  intro recorded
  have quiet := calm.mpr (((reports going).2 _ found).mp recorded)
  simp [again] at quiet

end ExprLang.Parser
