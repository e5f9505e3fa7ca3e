import Mathlib
import ExprLang.Proofs.Acceptance
import ExprLang.Proofs.ViablePrefixes

/-! The first diagnostic is about the first token that no program has there. Up to it the parser has read the beginning of
an expression, and what it still waits for can be supplied; behind it nothing can. -/

namespace ExprLang
open Token (Closed)
open Due

namespace Parser

/-- Nothing is wrong so far, and there is no error token ahead. -/
structure Clear (p : Parser) : Prop where
  closed : Closed p.upcoming
  scanned : ∀ t ∈ p.rest, t.kind ≠ .error
  calm : p.panicking = false
  room : p.pooled ≤ Chunk.poolLimit

namespace Clear

theorem reaches {p q : Parser} (clear : Clear p) (moves : Reaches p q) (calm : q.panicking = false) : Clear q :=
  ⟨moves.closed clear.closed, fun t member => clear.scanned t (moves.rest_suffix.subset member), calm, moves.pooled_le clear.room⟩

theorem advance {p : Parser} (clear : Clear p) : Clear p.advance ∧ p.advance.diagnostics = p.diagnostics := by
  have calm : p.advance.panicking = false := by
    rcases advance_cases clear.closed with ⟨_, _, same⟩ | ⟨_, errors, t, rest, front, lexical, _, same⟩
    · rw [same]
      exact clear.calm
    · cases errors with
      | nil =>
        rw [same]
        exact clear.calm
      | cons e errors => exact absurd (lexical e List.mem_cons_self) (clear.scanned e (by simp [front]))
  exact ⟨clear.reaches (reaches_advance p) calm, ((reaches_advance p).calm calm).2⟩

theorem passes {p : Parser} (clear : Clear p) (more : p.current.kind ≠ .eof) (plain : p.current.isPooled = false) :
    Passed p [p.current] p.advance := by
  exact passes_plain clear.closed more clear.advance.1.calm plain

end Clear

/-- Behind the tokens before, these begin an expression of a layer. -/
def Begins (layer : Layer) (before ts : List Token) : Prop :=
  ∃ more e, Expr.Spelt layer (before ++ ts ++ more) e

/-- The parser has come over the beginning of something to a token that cannot stand there, and has reported that. -/
structure Stalls (begins : List Token → Prop) (due : Nat → Due) (p q : Parser) (ts : List Token) (t : Token) : Prop where
  tokens : ∃ more, p.upcoming = ts ++ t :: more
  valued : ∀ u ∈ ts, u.Valued
  room : p.pooled + ts.countP Token.isPooled ≤ Chunk.poolLimit
  begins : begins ts
  offends : (∀ depth, (due depth).afterAll (ts ++ [t]) = none) ∨ ¬ t.Valued ∨
    (t.isPooled = true ∧ p.pooled + ts.countP Token.isPooled = Chunk.poolLimit)
  panics : q.panicking = true
  reported : ∃ problem, q.diagnostics = p.diagnostics.push ⟨t, problem⟩

namespace Stalls
variable {outer inner : List Token → Prop} {due next : Nat → Due} {us ts : List Token} {t : Token} {p q r : Parser}

/-- In a panic nothing more is reported. -/
theorem later (stalls : Stalls outer due p q ts t) (moves : Reaches q r) : Stalls outer due p r ts t := by
  rcases moves.reports with ⟨flag, same⟩ | ⟨calm, _⟩
  · exact { stalls with panics := flag.trans stalls.panics, reported := same ▸ stalls.reported }
  · simp [stalls.panics] at calm

/-- The same seen from further ahead. -/
theorem extend (passed : Passed p us q) (stalls : Stalls inner next q r ts t)
    (leads : ∀ depth, ∃ deeper, (due depth).afterAll us = some (next deeper)) (begins : inner ts → outer (us ++ ts)) :
    Stalls outer due p r (us ++ ts) t := by
  refine ⟨?_, ?_, ?_, begins stalls.begins, ?_, stalls.panics, ?_⟩
  · obtain ⟨more, tokens⟩ := stalls.tokens
    exact ⟨more, by rw [passed.tokens, tokens, List.append_assoc]⟩
  · intro u member
    rcases List.mem_append.mp member with member | member
    · exact passed.valued u member
    · exact stalls.valued u member
  · have room := stalls.room
    rwa [passed.pooled, Nat.add_assoc, ← List.countP_append] at room
  · rcases stalls.offends with stuck | beyond | ⟨pooled, full⟩
    · refine Or.inl ?_
      intro depth
      obtain ⟨deeper, reads⟩ := leads depth
      rw [List.append_assoc, afterAll_append, reads, Option.bind_some, stuck]
    · exact Or.inr (Or.inl beyond)
    · rw [passed.pooled, Nat.add_assoc, ← List.countP_append] at full
      exact Or.inr (Or.inr ⟨pooled, full⟩)
  · obtain ⟨problem, reported⟩ := stalls.reported
    exact ⟨problem, by rw [reported, passed.diagnostics]⟩

theorem weaken (stalls : Stalls inner due p q ts t) (begins : inner ts → outer ts) : Stalls outer due p q ts t :=
  { stalls with begins := begins stalls.begins }

/-- A problem reported at the next token, before or behind which the parser stands. -/
theorem report (passed : Passed p ts q) (clear : Clear q) (calm : r.panicking = false) (same : r.diagnostics = q.diagnostics)
    (problem : Problem) (begins : outer ts)
    (offends : (∀ depth, (due depth).afterAll (ts ++ [q.current]) = none) ∨ ¬ q.current.Valued ∨
      (q.current.isPooled = true ∧ q.pooled = Chunk.poolLimit)) :
    Stalls outer due p (r.report q.current problem) ts q.current := by
  have room := clear.room
  rw [passed.pooled] at room offends
  refine ⟨⟨q.rest, passed.tokens⟩, passed.valued, room, begins, offends, report_panicking _ _ _, problem, ?_⟩
  rw [report_calm r q.current problem calm, same, passed.diagnostics]

end Stalls

theorem Begins.loosen {layer other : Layer} {before ts : List Token} (begins : Begins other before ts)
    (looser : layer.rank ≤ other.rank) : Begins layer before ts := by
  obtain ⟨more, e, spelt⟩ := begins
  exact ⟨more, e, spelt.loosen looser⟩

theorem begins_nothing (layer : Layer) : Begins layer [] [] := by
  have nil : Expr.Spelt .primary [⟨.nilWord, utf8 "nil", 1⟩] _ := .literal (by decide)
  refine ⟨_, _, nil.loosen ?_⟩
  cases layer <;> decide

theorem no_operator_of_ends {t : Token} (ends : Ends .assignment t) : BinaryOp.ofKind? t.kind = none := by
  cases found : BinaryOp.ofKind? t.kind with
  | none => rfl
  | some op => exact absurd (ends op found) (Nat.not_lt_zero _)

/-- A problem inside of an expression is found at the first token that cannot stand there, as long as fuel lasts. -/
def NestedStalls (fuel : Nat) : Prop :=
  ∀ floor p, Clear p → p.rest.length < fuel → (expression fuel floor p).2.panicking = true →
    ∃ ts t, Stalls (Begins floor.layer []) Due.operand p (expression fuel floor p).2 ts t

def ClimbStalls (fuel : Nat) : Prop :=
  ∀ floor layer before left p, Clear p → p.rest.length < fuel → Expr.Spelt layer before left →
    floor.layer.rank ≤ layer.rank → p.current.Loosens layer → (climb fuel floor (some left) p).2.panicking = true →
    ∃ ts t, Stalls (Begins floor.layer before) Due.follow p (climb fuel floor (some left) p).2 ts t

section Operands
variable {fuel : Nat} {p : Parser} (clear : Clear p)
include clear

private theorem group_stalls (nested : NestedStalls fuel) (paid : p.advance.rest.length < fuel)
    (opens : p.current.kind = .leftParen) (panics : (operand fuel .group p.advance).2.panicking = true) :
    ∃ ts t, Stalls (Begins .primary []) Due.operand p (operand fuel .group p.advance).2 ts t := by
  have opening := clear.passes (by simp [opens]) (by simp [Token.isPooled, opens])
  have leads (depth : Nat) : (Due.operand depth).afterAll [p.current] = some (Due.operand (depth + 1)) := by
    rw [afterAll_cons, opens]
    rfl
  cases inner : (expression fuel .assignment p.advance).2.panicking with
  | true =>
    obtain ⟨ts, t, stalls⟩ := nested .assignment p.advance clear.advance.1 paid inner
    refine ⟨[p.current] ++ ts, t, Stalls.later (stalls.extend opening (fun depth => ⟨_, leads depth⟩) ?_) (expect_reaches _ _ _)⟩
    rintro ⟨more, e, spelt⟩
    exact ⟨more ++ [⟨.rightParen, utf8 ")", 1⟩], e, by simpa using Expr.Spelt.group opens rfl spelt⟩
  | false =>
    obtain ⟨⟨ts, e, parsed, passed, spelt⟩, ends⟩ :=
      (expression_sound fuel).1 .assignment p.advance clear.advance.1.closed paid inner
    rw [List.nil_append] at spelt
    have here := clear.advance.1.reaches ((expression_reaches fuel).1 .assignment p.advance) inner
    by_cases closes : (expression fuel .assignment p.advance).2.current.kind = .rightParen
    · simp [operand, expect, closes, here.advance.1.calm] at panics
    · simp only [operand, expect, if_neg closes]
      refine ⟨[p.current] ++ ts, _, .report (opening.trans passed) here inner rfl .expectParen ?_ (Or.inl ?_)⟩
      · exact ⟨[⟨.rightParen, utf8 ")", 1⟩], e, by simpa using Expr.Spelt.group opens rfl spelt⟩
      · intro depth
        rw [List.append_assoc, afterAll_append, leads, Option.bind_some, afterAll_append, spelt.afterAll, Option.bind_some,
          afterAll_cons, after_follow_eq_none (no_operator_of_ends ends)]
        · rfl
        · exact fun same => absurd same closes
        · exact fun same => absurd same (Nat.succ_ne_zero depth)

private theorem unary_stalls (nested : NestedStalls fuel) (paid : p.advance.rest.length < fuel) {op : UnaryOp}
    (leads : Lead.ofKind? p.current.kind = some (.unary op)) (panics : (operand fuel (.unary op) p.advance).2.panicking = true) :
    ∃ ts t, Stalls (Begins .unary []) Due.operand p (operand fuel (.unary op) p.advance).2 ts t := by
  have opening := clear.passes (Token.ne_eof_of_lead leads) (Token.plain_of_unary leads)
  obtain ⟨ts, t, stalls⟩ := nested .unary p.advance clear.advance.1 paid panics
  refine ⟨[p.current] ++ ts, t, Stalls.extend opening stalls ?_ ?_⟩
  · intro depth
    refine ⟨depth, ?_⟩
    rw [afterAll_cons, after_lead leads]
    rfl
  · rintro ⟨more, e, spelt⟩
    exact ⟨more, _, .unary (Lead.ofKind?_eq_unary_iff.mp leads) spelt⟩

private theorem literal_stalls (panics : (operand fuel .literal p.advance).2.panicking = true) :
    ∃ ts t, Stalls (Begins .primary []) Due.operand p (operand fuel .literal p.advance).2 ts t := by
  have calm := clear.advance.1.calm
  have begins := begins_nothing .primary
  simp only [operand, literal, advance_previous, advance_pooled] at panics ⊢
  cases value : Literal.ofToken p.current with
  | error problem =>
    refine ⟨[], p.current, .report (.nothing p) clear calm clear.advance.2 problem begins (Or.inr (Or.inl ?_))⟩
    rintro ⟨l, valued⟩
    rw [value] at valued
    cases valued
  | ok l =>
    have pools := isPooled_eq value
    rw [value] at panics
    simp only at panics ⊢
    split at panics
    · simp [calm] at panics
    next pooled =>
      split at panics
      · simp [calm] at panics
      next full =>
        have room := clear.room
        rw [if_neg pooled, if_neg full]
        refine ⟨[], p.current, .report (.nothing p) clear calm clear.advance.2 .tooManyConstants begins (Or.inr (Or.inr ?_))⟩
        exact ⟨by simpa [← pools] using pooled, by omega⟩

private theorem operand_stalls (nested : NestedStalls fuel) (paid : p.advance.rest.length < fuel) {lead : Lead}
    (leads : Lead.ofKind? p.current.kind = some lead) (panics : (operand fuel lead p.advance).2.panicking = true) :
    ∃ ts t, Stalls (Begins .unary []) Due.operand p (operand fuel lead p.advance).2 ts t := by
  cases lead with
  | group =>
    obtain ⟨ts, t, stalls⟩ := group_stalls clear nested paid (Token.opens_of_group leads) panics
    exact ⟨ts, t, stalls.weaken fun begins => begins.loosen (by decide)⟩
  | unary op => exact unary_stalls clear nested paid leads panics
  | literal =>
    obtain ⟨ts, t, stalls⟩ := literal_stalls clear panics
    exact ⟨ts, t, stalls.weaken fun begins => begins.loosen (by decide)⟩

end Operands

/-- Behind an expression there is no assignment. -/
private theorem conclude_stalls {floor : Precedence} {parsed : Option Expr × Parser} {p : Parser} {ts : List Token} {e : Expr}
    (clear : Clear parsed.2) (passed : Passed p ts parsed.2) (spelt : Expr.Spelt floor.layer ts e)
    (panics : (conclude floor parsed).2.panicking = true) :
    Stalls (Begins floor.layer []) Due.operand p (conclude floor parsed).2 ts parsed.2.current := by
  unfold conclude at panics ⊢
  split at panics
  next assigns =>
    have sign : parsed.2.current.kind = .equal := by simpa using (Bool.and_eq_true_iff.mp assigns).2
    rw [if_pos assigns]
    refine .report passed clear clear.advance.1.calm clear.advance.2 .invalidTarget ?_ (Or.inl ?_)
    · exact ⟨[], e, by simpa using spelt⟩
    · intro depth
      rw [afterAll_append, spelt.afterAll, Option.bind_some, afterAll_cons, sign]
      rfl
  · simp [clear.calm] at panics

private theorem expression_stalls_step {fuel : Nat} (nested : NestedStalls fuel) (climbs : ClimbStalls fuel) :
    NestedStalls (fuel + 1) := by
  intro floor p clear paid panics
  have moved := clear.advance
  rw [expression_succ] at panics ⊢
  cases leads : Lead.ofKind? p.current.kind with
  | none =>
    refine ⟨[], p.current, .report (.nothing p) clear moved.1.calm moved.2 .expectExpression (begins_nothing _) (Or.inl ?_)⟩
    intro depth
    rw [List.nil_append, afterAll_cons, Due.after, leads]
    rfl
  | some lead =>
    rw [leads] at panics
    simp only at panics ⊢
    have shorter := advance_shortens clear.closed (Token.ne_eof_of_lead leads)
    have following := (expression_reaches fuel).2 floor (operand fuel lead p.advance).1 (operand fuel lead p.advance).2
    cases first : (operand fuel lead p.advance).2.panicking with
    | true =>
      obtain ⟨ts, t, stalls⟩ := operand_stalls clear nested (by omega) leads first
      have whole := stalls.weaken fun begins => begins.loosen floor.rank_layer_le
      exact ⟨ts, t, whole.later (following.trans (conclude_reaches floor _))⟩
    | false =>
      obtain ⟨ts, e, parsed, passed, spelt⟩ := operand_sound (expression_sound fuel).1 clear.closed (by omega) leads first
      rw [List.nil_append] at spelt
      have here := moved.1.reaches (operand_reaches fuel lead p.advance) first
      have enough : (operand fuel lead p.advance).2.rest.length < fuel := by
        have taken := passed.rest_length
        have positive := List.length_pos_iff.mpr spelt.ne_nil
        omega
      rw [parsed] at panics following ⊢
      cases second : (climb fuel floor (some e) (operand fuel lead p.advance).2).2.panicking with
      | true =>
        obtain ⟨us, t, stalls⟩ := climbs floor .unary ts e _ here enough spelt floor.rank_layer_le (Token.loosens_unary _) second
        refine ⟨ts ++ us, t, (Stalls.extend passed stalls ?_ id).later (conclude_reaches floor _)⟩
        exact fun depth => ⟨depth, spelt.afterAll depth⟩
      | false =>
        -- Only the check for an assignment is left to have found something.
        obtain ⟨⟨us, whole, _, passed', spelt'⟩, _⟩ := (expression_sound fuel).2 floor .unary ts e _ here.closed enough spelt
          floor.rank_layer_le (Token.loosens_unary _) second
        exact ⟨ts ++ us, _, conclude_stalls (here.reaches following second) (passed.trans passed') spelt' panics⟩

private theorem climb_stalls_step {fuel : Nat} (nested : NestedStalls fuel) (climbs : ClimbStalls fuel) :
    ClimbStalls (fuel + 1) := by
  intro floor layer before left p clear paid spelt tight loose panics
  have moved := clear.advance
  rw [climb_succ] at panics ⊢
  cases joins : BinaryOp.ofKind? p.current.kind with
  | none => simp [joins, clear.calm] at panics
  | some op =>
    rw [joins] at panics
    simp only at panics ⊢
    split at panics
    next binds =>
      rw [if_pos binds]
      have more := Token.ne_eof_of_binary joins
      have shorter := advance_shortens clear.closed more
      have sign := clear.passes more (Token.plain_of_binary joins)
      have looser : floor.layer.rank ≤ op.layer.rank := (BinaryOp.level_le_iff floor op).mp binds
      have reads (depth : Nat) : (Due.follow depth).afterAll [p.current] = some (Due.operand depth) := by
        rw [afterAll_cons, after_operator joins]
        rfl
      have following := (expression_reaches fuel).2 floor
        ((some left).bind fun l => (expression fuel op.precedence.next p.advance).1.map fun r => .binary op p.current.line l r)
        (expression fuel op.precedence.next p.advance).2
      cases first : (expression fuel op.precedence.next p.advance).2.panicking with
      | true =>
        obtain ⟨ts, t, stalls⟩ := nested op.precedence.next p.advance moved.1 (by omega) first
        refine ⟨[p.current] ++ ts, t, (Stalls.extend sign stalls (fun depth => ⟨depth, reads depth⟩) ?_).later following⟩
        rintro ⟨rest, r, speltRight⟩
        rw [BinaryOp.layer_next] at speltRight
        have both := Expr.Spelt.binary (BinaryOp.ofKind?_eq_some_iff.mp joins) (spelt.loosen (loose op joins)) speltRight
        exact ⟨rest, _, by simpa using both.loosen looser⟩
      | false =>
        obtain ⟨⟨rs, right, parsed, passed, speltRight⟩, ends⟩ :=
          (expression_sound fuel).1 op.precedence.next p.advance moved.1.closed (by omega) first
        rw [List.nil_append, BinaryOp.layer_next] at speltRight
        have here := moved.1.reaches ((expression_reaches fuel).1 op.precedence.next p.advance) first
        have both : Expr.Spelt op.layer (before ++ p.current :: rs) (.binary op p.current.line left right) :=
          .binary (BinaryOp.ofKind?_eq_some_iff.mp joins) (spelt.loosen (loose op joins)) speltRight
        have taken := passed.rest_length
        rw [parsed] at panics ⊢
        obtain ⟨ts, t, stalls⟩ := climbs floor op.layer _ _ _ here (by omega) both looser ends.loosens panics
        refine ⟨[p.current] ++ rs ++ ts, t, Stalls.extend (sign.trans passed) stalls ?_ ?_⟩
        · intro depth
          refine ⟨depth, ?_⟩
          rw [afterAll_append, reads, Option.bind_some, speltRight.afterAll]
        · rintro ⟨more, e, whole⟩
          exact ⟨more, e, by simpa using whole⟩
    · simp [clear.calm] at panics

theorem expression_stalls (fuel : Nat) : NestedStalls fuel ∧ ClimbStalls fuel := by
  induction fuel with
  | zero =>
    refine ⟨?_, ?_⟩
    · intro floor p _ paid
      exact absurd paid (Nat.not_lt_zero _)
    · intro floor layer before left p _ paid
      exact absurd paid (Nat.not_lt_zero _)
  | succ fuel ih => exact ⟨expression_stalls_step ih.1 ih.2, climb_stalls_step ih.1 ih.2⟩

def BeginsStatements (ts : List Token) : Prop :=
  ∃ more ss, Statement.Spelt (ts ++ more) ss

theorem Begins.statements {ts : List Token} (begins : Begins .equality [] ts) : BeginsStatements ts := by
  obtain ⟨more, e, spelt⟩ := begins
  rw [List.nil_append] at spelt
  obtain ⟨front, t, same⟩ : ∃ front t, ts ++ more = front ++ [t] :=
    ⟨_, _, (List.dropLast_concat_getLast spelt.ne_nil).symm⟩
  rw [same] at spelt
  exact ⟨more, [⟨e, t.line⟩], same ▸ .last spelt⟩

theorem Stalls.at_statement {begins : List Token → Prop} {p q : Parser} {ts : List Token} {t : Token}
    (stalls : Stalls begins Due.operand p q ts t) (more : p.current.kind ≠ .eof) :
    Stalls begins (fun _ => .statement) p q ts t := by
  obtain ⟨rest, tokens⟩ := stalls.tokens
  obtain ⟨others, first⟩ : ∃ others, ts ++ [t] = p.current :: others := by
    cases ts with
    | nil => exact ⟨[], by rw [(List.cons.inj tokens).1]; rfl⟩
    | cons u ts => exact ⟨ts ++ [t], by rw [(List.cons.inj tokens).1]; rfl⟩
  refine { stalls with offends := stalls.offends.imp_left fun stuck _ => ?_ }
  rw [first, afterAll_statement more, ← first]
  exact stuck 0

theorem statement_stalls {fuel : Nat} {p : Parser} (clear : Clear p) (paid : p.rest.length < fuel) (more : p.current.kind ≠ .eof)
    (panics : (statement fuel p).2.panicking = true) :
    ∃ ts t, Stalls BeginsStatements (fun _ => .statement) p (statement fuel p).2 ts t := by
  rw [statement_eq] at panics ⊢
  split at panics
  next keyword =>
    have noLead : Lead.ofKind? p.current.kind = none := by
      revert keyword
      cases p.current.kind <;> intro keyword <;> first | rfl | cases keyword
    rw [if_pos keyword]
    have begins := (begins_nothing .equality).statements
    refine ⟨[], p.current, .report (.nothing p) clear clear.advance.1.calm clear.advance.2 _ begins (Or.inl ?_)⟩
    intro _
    rw [List.nil_append, afterAll_cons, Due.after, if_neg more, noLead]
    rfl
  next plain =>
    rw [if_neg plain]
    cases first : (expression fuel .assignment p).2.panicking with
    | true =>
      obtain ⟨ts, t, stalls⟩ := (expression_stalls fuel).1 .assignment p clear paid first
      exact ⟨ts, t, ((stalls.weaken Begins.statements).at_statement more).later (finish_reaches _)⟩
    | false =>
      obtain ⟨⟨ts, e, parsed, passed, spelt⟩, ends⟩ := (expression_sound fuel).1 .assignment p clear.closed paid first
      rw [List.nil_append] at spelt
      have here := clear.reaches ((expression_reaches fuel).1 .assignment p) first
      simp only [finish] at panics ⊢
      split at panics
      · simp [here.advance.1.calm] at panics
      next further =>
        split at panics
        · simp [first] at panics
        next going =>
          rw [if_neg further, if_neg going]
          have begins : Begins .equality [] ts := ⟨[], e, (List.append_nil ts).symm ▸ spelt⟩
          refine ⟨ts, _, .report passed here first rfl .expectSemicolon begins.statements (Or.inl ?_)⟩
          intro _
          rw [afterAll_append, spelt.afterAll_statement, Option.bind_some, afterAll_cons,
            after_follow_eq_none (no_operator_of_ends ends) (fun _ => rfl) (fun _ => ⟨further, going⟩)]
          rfl

/-- The statements before the first problem are read one by one, and the problem is the first diagnostic. -/
theorem statements_stall (fuel : Nat) (parsed : Array Statement) (p : Parser) (clear : Clear p) (paid : p.rest.length + 1 < fuel)
    (fresh : p.diagnostics = #[]) (unclean : (statements fuel parsed p).2.diagnostics ≠ #[]) :
    ∃ q ts t, Stalls BeginsStatements (fun _ => .statement) p q ts t ∧
      q.diagnostics.toList <+: (statements fuel parsed p).2.diagnostics.toList := by
  induction fuel generalizing parsed p with
  | zero => exact absurd paid (Nat.not_lt_zero _)
  | succ fuel ih =>
    by_cases ended : p.current.kind = .eof
    · rw [(statements_at_end fuel parsed clear.closed ended).2] at unclean
      exact absurd fresh unclean
    · rw [statements_succ fuel parsed p ended] at unclean ⊢
      cases panics : (statement fuel p).2.panicking with
      | true =>
        obtain ⟨ts, t, stalls⟩ := statement_stalls clear (by omega) ended panics
        exact ⟨_, ts, t, stalls, (settle_keeps fuel _).trans (statements_keep fuel _ _)⟩
      | false =>
        have shorter := statement_shortens fuel clear.closed ended (by omega)
        have here := clear.reaches (statement_reaches fuel p) panics
        obtain ⟨ts, e, _, spelt, shape⟩ := statement_sound clear.closed (by omega) panics
        rw [settle_calm fuel panics] at unclean ⊢
        rcases shape with ⟨sign, separates, passed⟩ | ⟨done, passed⟩
        · obtain ⟨q, us, t, stalls, kept⟩ := ih _ _ here (by omega) (passed.diagnostics.trans fresh) unclean
          refine ⟨q, ts ++ [sign] ++ us, t, stalls.extend passed ?_ ?_, kept⟩
          · intro depth
            refine ⟨depth, ?_⟩
            rw [afterAll_append, spelt.afterAll_statement, Option.bind_some, afterAll_cons, separates]
            rfl
          · rintro ⟨more, ss, others⟩
            exact ⟨more, _, by simpa using Statement.Spelt.more spelt separates others⟩
        · obtain ⟨fuel, rfl⟩ : ∃ n, fuel = n + 1 := ⟨fuel - 1, by omega⟩
          rw [(statements_at_end fuel _ here.closed done).2] at unclean
          exact absurd (passed.diagnostics.trans fresh) unclean

/-- Without error tokens the parser begins at the first token. -/
theorem Clear.start {tokens : List Token} (closed : Closed tokens) (scanned : ∀ t ∈ tokens, t.kind ≠ .error) :
    Clear (Parser.start tokens) ∧ (Parser.start tokens).upcoming = tokens ∧ (Parser.start tokens).pooled = 0 ∧
      (Parser.start tokens).diagnostics = #[] := by
  rcases start_cases closed with ⟨t, rest, rfl, _, ready⟩ | ⟨e, errors, t, rest, rfl, lexical, _, _⟩
  · rw [ready]
    exact ⟨⟨closed, fun u member => scanned u (List.mem_cons_of_mem t member), rfl, Nat.zero_le _⟩, rfl, rfl, rfl⟩
  · exact absurd (lexical e List.mem_cons_self) (scanned e (by simp))

end Parser

namespace Program

/-- The token cannot stand behind those before it, or it is a number out of range, or a constant for which there is no room. -/
def Offends (before : List Token) (t : Token) : Prop :=
  ¬ Viable (before ++ [t]) ∨ ¬ t.InRange ∨ (t.isPooled = true ∧ before.countP Token.isPooled = 65536)

end Program

/-- The first diagnostic stands at the first token that offends. -/
theorem first_diagnostic_at_first_offence {source : Text} {ds : List Diagnostic}
    (scanned : ∀ t ∈ Token.all source, t.kind ≠ .error) (failed : compile source = .error ds) :
    ∃ before t after d others, Token.all source = before ++ t :: after ∧ ds = d :: others ∧ Program.Offends before t ∧
      (∀ earlier u between, before = earlier ++ u :: between → ¬ Program.Offends earlier u) ∧
      d.line = t.line ∧ d.site = if t.kind = .eof then utf8 " at end" else utf8 " at '" ++ t.lexeme ++ utf8 "'" := by
  obtain ⟨clear, here, empty, fresh⟩ := Parser.Clear.start (Token.closed_all source) scanned
  have enough : (Parser.start (Token.all source)).rest.length + 1 < Parser.fuelFor (Token.all source) := by
    have size := congrArg List.length here
    rw [Parser.upcoming, List.length_cons] at size
    rw [Parser.fuelFor]
    omega
  obtain ⟨final, unclean⟩ := diagnostics_of_compile failed
  obtain ⟨q, before, t, stalls, kept⟩ := Parser.statements_stall _ #[] _ clear enough fresh unclean
  obtain ⟨after, tokens⟩ := stalls.tokens
  obtain ⟨problem, reported⟩ := stalls.reported
  have room := stalls.room
  have offends := stalls.offends
  rw [here] at tokens
  rw [empty, Nat.zero_add] at room offends
  rw [reported, fresh, final] at kept
  obtain ⟨others, first⟩ := kept
  refine ⟨before, t, after, ⟨t, problem⟩, others, tokens, first.symm, ?_, ?_, rfl, ?_⟩
  · rcases offends with stuck | beyond | full
    · exact Or.inl (Program.not_viable (stuck 0))
    · exact Or.inr (Or.inl fun inRange => beyond (t.valued_iff.mpr inRange))
    · exact Or.inr (Or.inr full)
  · rintro earlier u between rfl (stuck | beyond | ⟨pooled, full⟩)
    · obtain ⟨more, ss, spelt⟩ := stalls.begins
      apply stuck
      have whole : Statement.Spelt ((earlier ++ [u] ++ between) ++ more) ss := by simpa using spelt
      exact (Program.viable_of_statements whole).front
    · exact beyond (u.valued_iff.mp (stalls.valued u (by simp)))
    · rw [List.countP_append, List.countP_cons_of_pos pooled, full] at room
      exact absurd room (by simp [Chunk.poolLimit])
  · have valid : t.kind ≠ .error := scanned t (by simp [tokens])
    unfold Diagnostic.site
    cases kind : t.kind <;> first | rfl | contradiction

theorem misplaced_bang_found :
    let source := utf8 "2;(3\n!"
    ∃ before t after, Token.all source = before ++ t :: after ∧ Program.Offends before t ∧
      (∀ earlier u between, before = earlier ++ u :: between → ¬ Program.Offends earlier u) ∧
      t.line = 2 ∧ t.kind ≠ .eof ∧ utf8 " at '!'" = utf8 " at '" ++ t.lexeme ++ utf8 "'" := by
  intro source
  have scanned : (Token.all source).all (fun t => t.kind ≠ .error) = true := by cbv
  have failed : compile source = .error [⟨⟨.bang, utf8 "!", 2⟩, .expectParen⟩] := by cbv
  obtain ⟨before, t, after, d, others, tokens, reported, offends, earliest, line, site⟩ :=
    first_diagnostic_at_first_offence (fun t member => by simpa using List.all_eq_true.mp scanned t member) failed
  obtain ⟨rfl, _⟩ := List.cons.inj reported
  have further : t.kind ≠ .eof := by
    intro ended
    rw [if_pos ended] at site
    exact absurd site (by decide)
  rw [if_neg further] at site
  exact ⟨before, t, after, tokens, offends, earliest, line.symm, further, site⟩

end ExprLang
