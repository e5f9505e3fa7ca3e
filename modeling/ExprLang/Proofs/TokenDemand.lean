import ExprLang.Proofs.LineCount
import ExprLang.Proofs.Recovery

/-! How many tokens the parser calls for. It takes them one by one, and at the end of the program a further call returns the
end token again. So all that the parser can see of the calls it does not make is a longer row of end tokens, and to count its
calls is to find out how many of them it takes. An expression takes one only to stop there, and the program as a whole takes
one or two. -/

namespace ExprLang
open Token (Closed)

theorem Cut.lexeme_eq_taken {text : Text} {k : TokenKind} {lexeme taken : Text} (cut : Cut text k lexeme taken)
    (valid : k ≠ .error) : lexeme = taken := by
  cases cut with
  | ended | token => rfl
  | unterminated | unexpected => exact absurd rfl valid

namespace Cursor.Aligned
variable {c : Cursor} (aligned : c.Aligned)
include aligned

/-- At the end every call is like the first. -/
theorem next_at_end (ended : c.next.1.kind = .eof) : c.next.2.next = c.next := by
  obtain ⟨_, _, _, _, cut⟩ := aligned.cuts
  have rest : c.next.2.rest = [] := by
    have same : c.next.2.unread.glyphs = c.next.2.rest := aligned.next
    rw [← same, aligned.unread_at_end ended]
    rfl
  have lexeme : c.next.1.lexeme = [] :=
    (cut.lexeme_eq_taken (by simp [ended])).trans (List.append_eq_nil_iff.mp (cut.kind_eof_iff.mp ended)).1
  have line := c.next_line
  generalize c.next = called at ended rest lexeme line
  obtain ⟨⟨kind, text, row⟩, glyphs, behind⟩ := called
  obtain rfl : kind = .eof := ended
  obtain rfl : text = [] := lexeme
  obtain rfl : glyphs = [] := rest
  obtain rfl : row = behind := line
  rfl

theorem after_end {last : Nat} (ended : (c.after last).next.1.kind = .eof) (more : Nat) :
    (c.after (last + more)).next = (c.after last).next := by
  induction more with
  | zero => rfl
  | succ more ih =>
    calc (c.after (last + more)).next.2.next
      _ = (c.after last).next.2.next := by rw [ih]
      _ = (c.after last).next := (aligned.after last).next_at_end ended

theorem calls_at_end {last : Nat} (ended : (c.after last).next.1.kind = .eof) (more : Nat) :
    c.calls (last + 1 + more) = c.calls (last + 1) ++ List.replicate more (c.after last).next.1 := by
  rw [calls, List.range_add, List.map_append, List.map_map]
  congr 1
  rw [List.eq_replicate_iff]
  refine ⟨by simp, ?_⟩
  intro t member
  obtain ⟨n, _, rfl⟩ := List.mem_map.mp member
  rw [Function.comp_apply, Nat.add_assoc, aligned.after_end ended]

/-- Every call before the end takes at least a byte. -/
theorem calls_le_length {count : Nat} (inside : ∀ n < count, (c.after n).next.1.kind ≠ .eof) :
    count + (c.after count).unread.length ≤ c.unread.length := by
  induction count with
  | zero => simp [Cursor.after]
  | succ count ih =>
    have before := ih fun n earlier => inside n (Nat.lt_succ_of_lt earlier)
    obtain ⟨blanks, taken, same, _, cut⟩ := (aligned.after count).cuts
    have some := List.length_pos_of_ne_nil (cut.taken_ne_nil (inside count (Nat.lt_succ_self count)))
    rw [same, List.length_append, List.length_append] at before
    rw [Cursor.after]
    omega

end Cursor.Aligned

namespace Parser

theorem take_append {ts : List Token} (closed : Closed ts) (before more : List Token) (p : Parser) :
    take { p with rest := before } (ts ++ more) = { take p ts with rest := (take p ts).rest ++ more } := by
  induction ts generalizing p with
  | nil => exact closed.elim
  | cons t rest ih =>
    have reported : ({ p with rest := before } : Parser).report t (.lexical t.lexeme) =
        { p.report t (.lexical t.lexeme) with rest := before } := by
      cases panics : p.panicking <;> simp [report, panics]
    rw [List.cons_append, take, take, reported]
    split
    next lexical => exact ih (closed.rest_closed (by simp [lexical])) _
    · rfl

/-- The parser with more end tokens ahead. -/
def pad (ending : Token) (spare : Nat) (p : Parser) : Parser :=
  { p with rest := p.rest ++ List.replicate spare ending }

structure EndsWith (ending : Token) (p : Parser) : Prop where
  closed : Closed p.upcoming
  only : ∀ t ∈ p.upcoming, t.kind = .eof → t = ending

namespace EndsWith
variable {ending : Token}

theorem reaches {p q : Parser} (ends : EndsWith ending p) (moves : Reaches p q) : EndsWith ending q :=
  ⟨moves.closed ends.closed, fun t member => ends.only t ((moves.upcoming_suffix ends.closed).subset member)⟩

theorem start {tokens : List Token} (closed : Closed tokens) (only : ∀ t ∈ tokens, t.kind = .eof → t = ending) :
    EndsWith ending (start tokens) := by
  refine ⟨(Visits.start.ready closed).closed, ?_⟩
  rcases start_cases closed with ⟨t, rest, rfl, _, ready⟩ | ⟨e, errors, t, rest, rfl, _, _, ready⟩
  · rw [ready]
    exact only
  · rw [ready]
    intro u member
    exact only u (List.mem_append_right _ member)

theorem settle {p : Parser} (ends : EndsWith ending p) (fuel : Nat) : EndsWith ending (settle fuel p) := by
  obtain ⟨q, moves, same, _⟩ := settle_reaches fuel p
  exact EndsWith.reaches ⟨same ▸ ends.closed, same ▸ ends.only⟩ moves

end EndsWith

section Pad
variable {ending : Token} (spare : Nat) {p : Parser}

@[simp] theorem pad_current : (p.pad ending spare).current = p.current := rfl
@[simp] theorem pad_previous : (p.pad ending spare).previous = p.previous := rfl
@[simp] theorem pad_pooled : (p.pad ending spare).pooled = p.pooled := rfl

@[simp] theorem report_pad (t : Token) (problem : Problem) :
    (p.pad ending spare).report t problem = (p.report t problem).pad ending spare := by
  cases panics : p.panicking <;> simp [report, pad, panics]

theorem start_pad {tokens : List Token} (closed : Closed tokens) :
    start (tokens ++ List.replicate spare ending) = (start tokens).pad ending spare :=
  take_append closed [] _ ⟨⟨.eof, [], 0⟩, ⟨.eof, [], 0⟩, [], 0, false, #[]⟩

theorem advance_pad (closed : Closed p.upcoming) (more : p.current.kind ≠ .eof) :
    (p.pad ending spare).advance = p.advance.pad ending spare :=
  take_append (closed.rest_closed more) _ _ { p with previous := p.current }

theorem advance_pad_at_end (ends : EndsWith ending p) (ended : p.current.kind = .eof) :
    (p.pad ending (spare + 1)).advance = p.advance.pad ending spare := by
  have last : p.rest = [] := ends.closed.rest_eq_nil ended
  have here : ending = p.current := (ends.only p.current List.mem_cons_self ended).symm
  subst here
  simp [advance, pad, last, List.replicate_succ, take, ended]

theorem expect_pad (closed : Closed p.upcoming) {k : TokenKind} (inside : k ≠ .eof) (problem : Problem) :
    (p.pad ending spare).expect k problem = (p.expect k problem).pad ending spare := by
  unfold expect
  rw [pad_current]
  split
  next same => exact advance_pad spare closed (same ▸ inside)
  · exact report_pad spare p.current problem

theorem literal_pad : (p.pad ending spare).literal = (p.literal.1, p.literal.2.pad ending spare) := by
  simp only [literal, pad_previous, pad_pooled, report_pad]
  cases Literal.ofToken p.previous with
  | error problem => rfl
  | ok l =>
    simp only
    split
    · rfl
    · split <;> rfl

theorem conclude_pad (closed : Closed p.upcoming) (floor : Precedence) (e : Option Expr) :
    conclude floor (e, p.pad ending spare) = ((conclude floor (e, p)).1, (conclude floor (e, p)).2.pad ending spare) := by
  by_cases sign : p.current.kind = .equal
  · have more : p.current.kind ≠ .eof := by simp [sign]
    by_cases loose : floor.level ≤ Precedence.assignment.level
    · simp [conclude, loose, sign, advance_pad spare closed more]
    · simp [conclude, loose]
  · simp [conclude, sign]

end Pad

/-- Parsing from here comes to this result, whatever fuel is left over, and takes so many of the end tokens that are added. -/
def Agrees {α : Type} (ending : Token) (taken : Nat) (p : Parser) (own : α × Parser) (parse : Nat → Parser → α × Parser) : Prop :=
  ∀ fuel spare, p.rest.length < fuel → parse fuel (p.pad ending (spare + taken)) = (own.1, own.2.pad ending spare)

/-- Of the end tokens that are added one is taken at most, and only to stop there. -/
def Demands {α : Type} (ending : Token) (p : Parser) (own : α × Parser) (parse : Nat → Parser → α × Parser) : Prop :=
  Agrees ending 0 p own parse ∨ (own.2.current.kind = .eof ∧ Agrees ending 1 p own parse)

namespace Demands
variable {α β : Type} {ending : Token} {p : Parser} {own : α × Parser} {parse : Nat → Parser → α × Parser}

/-- Parsing may go on by what takes nothing at the end. -/
theorem bind {final : β × Parser} (next : Nat → α × Parser → β × Parser) (first : Demands ending p own parse)
    (within : own.2.rest.length ≤ p.rest.length)
    (going : own.2.current.kind ≠ .eof → Demands ending own.2 final fun fuel q => next fuel (own.1, q))
    (stays : own.2.current.kind = .eof →
      final.2.current.kind = .eof ∧ Agrees ending 0 own.2 final fun fuel q => next fuel (own.1, q)) :
    Demands ending p final fun fuel q => next fuel (parse fuel q) := by
  have follows {k m : Nat} (front : Agrees ending k p own parse)
      (back : Agrees ending m own.2 final fun fuel q => next fuel (own.1, q)) :
      Agrees ending (m + k) p final fun fuel q => next fuel (parse fuel q) := by
    intro fuel spare paid
    simp only [← Nat.add_assoc, front fuel (spare + m) paid]
    exact back fuel spare (Nat.lt_of_le_of_lt within paid)
  rcases first with plain | ⟨ended, one⟩
  · by_cases ended : own.2.current.kind = .eof
    · exact Or.inl (follows plain (stays ended).2)
    · rcases going ended with same | ⟨done, one⟩
      · exact Or.inl (follows plain same)
      · exact Or.inr ⟨done, follows plain one⟩
  · obtain ⟨done, same⟩ := stays ended
    exact Or.inr ⟨done, follows one same⟩

/-- As above, where what comes next spends no fuel and takes no end token at all. -/
theorem followed (next : α × Parser → β × Parser) (first : Demands ending p own parse)
    (within : own.2.rest.length ≤ p.rest.length)
    (keeps : ∀ spare, next (own.1, own.2.pad ending spare) = ((next own).1, (next own).2.pad ending spare))
    (stays : own.2.current.kind = .eof → (next own).2.current.kind = .eof) :
    Demands ending p (next own) fun fuel q => next (parse fuel q) := by
  apply first.bind (fun _ => next) within
  · intro _
    exact Or.inl fun _ spare _ => keeps spare
  · intro ended
    exact ⟨stays ended, fun _ spare _ => keeps spare⟩

theorem congr {again : Nat → Parser → α × Parser} (demands : Demands ending p own parse)
    (same : ∀ fuel spare, again fuel (p.pad ending spare) = parse fuel (p.pad ending spare)) : Demands ending p own again := by
  rcases demands with plain | ⟨ended, one⟩
  · exact Or.inl fun fuel spare paid => (same fuel _).trans (plain fuel spare paid)
  · exact Or.inr ⟨ended, fun fuel spare paid => (same fuel _).trans (one fuel spare paid)⟩

/-- A token pays for the fuel that the parser spends on it. -/
theorem of_advance {whole : Nat → Parser → α × Parser} (inner : Demands ending p.advance own parse) (closed : Closed p.upcoming)
    (more : p.current.kind ≠ .eof)
    (same : ∀ fuel spare, whole (fuel + 1) (p.pad ending spare) = parse fuel (p.pad ending spare).advance) :
    Demands ending p own whole := by
  have shorter := advance_shortens closed more
  have enters {k : Nat} (agrees : Agrees ending k p.advance own parse) : Agrees ending k p own whole := by
    intro fuel spare paid
    obtain ⟨fuel, rfl⟩ : ∃ n, fuel = n + 1 := ⟨fuel - 1, by omega⟩
    rw [same, advance_pad _ closed more]
    exact agrees fuel spare (by omega)
  rcases inner with plain | ⟨ended, one⟩
  · exact Or.inl (enters plain)
  · exact Or.inr ⟨ended, enters one⟩

end Demands

theorem climb_at_end {p : Parser} (ended : p.current.kind = .eof) (fuel : Nat) (floor : Precedence) (left : Option Expr) :
    climb fuel floor left p = (left, p) := by
  apply climb_stops
  intro op found
  exact absurd ended (Token.ne_eof_of_binary found)

def NestedDemands (fuel : Nat) : Prop :=
  ∀ ending floor p, EndsWith ending p → p.rest.length < fuel →
    Demands ending p (expression fuel floor p) fun fuel => expression fuel floor

def ClimbDemands (fuel : Nat) : Prop :=
  ∀ ending floor left p, EndsWith ending p → p.rest.length < fuel →
    Demands ending p (climb fuel floor left p) fun fuel => climb fuel floor left

theorem operand_demands {fuel : Nat} {ending : Token} {p : Parser} (nested : NestedDemands fuel) (lead : Lead)
    (ends : EndsWith ending p) (paid : p.rest.length < fuel) :
    Demands ending p (operand fuel lead p) fun fuel => operand fuel lead := by
  cases lead with
  | group =>
    have moves := (expression_reaches fuel).1 .assignment p
    have behind := (ends.reaches moves).closed
    apply (nested ending .assignment p ends paid).followed
      (fun parsed => (parsed.1, parsed.2.expect .rightParen .expectParen)) moves.rest_suffix.length_le
    · intro spare
      rw [expect_pad spare behind (by simp)]
    · intro ended
      simp [expect, ended]
  | unary op =>
    rcases nested ending .unary p ends paid with plain | ⟨ended, one⟩
    · refine Or.inl fun more spare enough => ?_
      simp only [operand, plain more spare enough, pad_previous]
    · refine Or.inr ⟨ended, fun more spare enough => ?_⟩
      simp only [operand, one more spare enough, pad_previous]
  | literal => exact Or.inl fun _ spare _ => literal_pad spare

/-- At the end there is no operator, so that climbing may follow anything. -/
theorem Demands.climb {fuel : Nat} {ending : Token} {p : Parser} {own : Option Expr × Parser}
    {parse : Nat → Parser → Option Expr × Parser} (first : Demands ending p own parse) (climbs : ClimbDemands fuel)
    (floor : Precedence) (left : Option Expr → Option Expr) (moves : Reaches p own.2) (ends : EndsWith ending p)
    (paid : p.rest.length < fuel) :
    Demands ending p (climb fuel floor (left own.1) own.2)
      fun fuel q => Parser.climb fuel floor (left (parse fuel q).1) (parse fuel q).2 := by
  have within := moves.rest_suffix.length_le
  apply first.bind (fun fuel parsed => Parser.climb fuel floor (left parsed.1) parsed.2) within
  · intro _
    exact climbs ending floor _ _ (ends.reaches moves) (Nat.lt_of_le_of_lt within paid)
  · intro ended
    rw [climb_at_end ended]
    exact ⟨ended, fun fuel spare _ => climb_at_end (p := pad ending spare _) ended fuel floor _⟩

private theorem expression_demands_step {fuel : Nat} (nested : NestedDemands fuel) (climbs : ClimbDemands fuel) :
    NestedDemands (fuel + 1) := by
  intro ending floor p ends paid
  cases leads : Lead.ofKind? p.current.kind with
  | none =>
    have wrong (more : Nat) (q : Parser) (same : q.current = p.current) :
        expression (more + 1) floor q = (none, q.advance.report p.current .expectExpression) := by
      rw [expression_succ, same, leads]
    rw [wrong fuel p rfl]
    by_cases ended : p.current.kind = .eof
    · refine Or.inr ⟨?_, fun more spare enough => ?_⟩
      · rcases advance_cases ends.closed with ⟨_, _, same⟩ | ⟨more, _⟩
        · rw [report_current, same]
          exact ended
        · exact absurd ended more
      · obtain ⟨more, rfl⟩ : ∃ n, more = n + 1 := ⟨more - 1, by omega⟩
        refine (wrong more (p.pad ending (spare + 1)) rfl).trans ?_
        rw [advance_pad_at_end spare ends ended, report_pad]
    · refine Or.inl fun more spare enough => ?_
      obtain ⟨more, rfl⟩ : ∃ n, more = n + 1 := ⟨more - 1, by omega⟩
      refine (wrong more (p.pad ending spare) rfl).trans ?_
      rw [advance_pad spare ends.closed ended, report_pad]
  | some lead =>
    have more := Token.ne_eof_of_lead leads
    have shorter := advance_shortens ends.closed more
    have entered := ends.reaches (reaches_advance p)
    have first := operand_demands nested lead entered (by omega)
    have taken := operand_reaches fuel lead p.advance
    have climbed : Demands ending p.advance (climb fuel floor (operand fuel lead p.advance).1 (operand fuel lead p.advance).2)
        fun fuel q => climb fuel floor (operand fuel lead q).1 (operand fuel lead q).2 :=
      first.climb climbs floor id taken entered (by omega)
    have moves := taken.trans ((expression_reaches fuel).2 floor (operand fuel lead p.advance).1 _)
    have last := (entered.reaches moves).closed
    rw [expression_succ, leads]
    refine (climbed.followed (conclude floor) moves.rest_suffix.length_le ?_ ?_).of_advance ends.closed more ?_
    · intro spare
      exact conclude_pad spare last floor _
    · intro ended
      simp [conclude, ended]
    · intro fuel spare
      rw [expression_succ, pad_current, leads]

private theorem climb_demands_step {fuel : Nat} (nested : NestedDemands fuel) (climbs : ClimbDemands fuel) :
    ClimbDemands (fuel + 1) := by
  intro ending floor left p ends paid
  have stays (stops : Ends floor p.current) : Demands ending p (climb (fuel + 1) floor left p) fun fuel => climb fuel floor left := by
    rw [climb_stops stops]
    exact Or.inl fun more spare _ => climb_stops (p := p.pad ending spare) stops more left
  cases found : BinaryOp.ofKind? p.current.kind with
  | none => exact stays (by simp [Ends, found])
  | some op =>
    by_cases binds : floor.level ≤ op.precedence.level
    · have more := Token.ne_eof_of_binary found
      have shorter := advance_shortens ends.closed more
      have entered := ends.reaches (reaches_advance p)
      have right := nested ending op.precedence.next p.advance entered (by omega)
      have taken := (expression_reaches fuel).1 op.precedence.next p.advance
      have climbed := right.climb climbs floor
        (fun right => left.bind fun l => right.map fun r => .binary op p.current.line l r) taken entered (by omega)
      rw [climb_succ, found]
      simp only [if_pos binds]
      apply climbed.of_advance ends.closed more
      intro fuel spare
      rw [climb_succ, pad_current, found]
      simp only [if_pos binds]
    · rw [BinaryOp.level_le_iff] at binds
      exact stays (by simpa [Ends, found] using binds)

theorem expression_demands (fuel : Nat) : NestedDemands fuel ∧ ClimbDemands fuel := by
  induction fuel with
  | zero =>
    refine ⟨?_, ?_⟩
    · intro _ _ _ _ paid
      exact absurd paid (Nat.not_lt_zero _)
    · intro _ _ _ _ _ paid
      exact absurd paid (Nat.not_lt_zero _)
  | succ fuel ih => exact ⟨expression_demands_step ih.1 ih.2, climb_demands_step ih.1 ih.2⟩

theorem finish_pad {ending : Token} {p : Parser} (closed : Closed p.upcoming) (spare : Nat) (e : Option Expr) :
    finish (e, p.pad ending spare) = ((finish (e, p)).1, (finish (e, p)).2.pad ending spare) := by
  by_cases sign : p.current.kind = .semicolon
  · have more : p.current.kind ≠ .eof := by simp [sign]
    simp [finish, sign, advance_pad spare closed more]
  · by_cases ended : p.current.kind = .eof
    · simp [finish, ended]
    · simp [finish, sign, ended]

theorem statement_demands {fuel : Nat} {ending : Token} {p : Parser} (ends : EndsWith ending p) (paid : p.rest.length < fuel) :
    Demands ending p (statement fuel p) statement := by
  by_cases keyword : beginsStatement p.current.kind = true
  · have more : p.current.kind ≠ .eof := by
      intro ended
      simp [ended, beginsStatement] at keyword
    refine Or.inl fun _ spare _ => ?_
    simp [statement, keyword, advance_pad spare ends.closed more]
  · have begins (more : Nat) (q : Parser) (same : q.current = p.current) :
        statement more q = finish (expression more .assignment q) := by
      simp [statement_eq, same, keyword]
    have moves := (expression_reaches fuel).1 .assignment p
    have behind := moves.closed ends.closed
    rw [begins fuel p rfl]
    have inner := (expression_demands fuel).1 ending .assignment p ends paid
    refine (inner.followed finish moves.rest_suffix.length_le ?_ ?_).congr ?_
    · intro spare
      exact finish_pad behind spare _
    · intro ended
      simp [finish, ended]
    · intro more spare
      exact begins more (p.pad ending spare) rfl

/-- Skipping stops at the end token, so it takes no other. -/
theorem skip_pad {fuel more : Nat} (ending : Token) {p : Parser} (closed : Closed p.upcoming) (paid : p.rest.length < fuel)
    (enough : p.rest.length < more) (spare : Nat) : skip more (p.pad ending spare) = (skip fuel p).pad ending spare := by
  induction fuel generalizing more p with
  | zero => exact absurd paid (Nat.not_lt_zero _)
  | succ fuel ih =>
    obtain ⟨more, rfl⟩ : ∃ n, more = n + 1 := ⟨more - 1, by omega⟩
    rw [skip, skip, pad_current, pad_previous]
    split
    · rfl
    next goes =>
      have further : p.current.kind ≠ .eof := by
        intro ended
        simp [ended] at goes
      have shorter := advance_shortens closed further
      rw [advance_pad spare closed further]
      exact ih ((reaches_advance p).closed closed) (by omega) (by omega)

theorem settle_pad {fuel more : Nat} (ending : Token) {p : Parser} (closed : Closed p.upcoming) (paid : p.rest.length < fuel)
    (enough : p.rest.length < more) (spare : Nat) : settle more (p.pad ending spare) = (settle fuel p).pad ending spare := by
  cases panics : p.panicking with
  | true =>
    have calmed : Closed ({ p with panicking := false } : Parser).upcoming := closed
    have skipped := skip_pad ending calmed paid enough spare
    simpa [settle, recover, pad, panics] using skipped
  | false => simp [settle, pad, panics]

theorem settle_at_end {p : Parser} (ended : p.current.kind = .eof) (fuel : Nat) : (settle fuel p).current = p.current := by
  unfold settle recover
  split
  · cases fuel with
    | zero => rfl
    | succ fuel => simp [skip, ended]
  · rfl

theorem statements_agree_at_end {ending : Token} {p : Parser} (ends : EndsWith ending p) (ended : p.current.kind = .eof)
    (fuel : Nat) (parsed : Array Statement) :
    Agrees ending 1 p (statements (fuel + 1) parsed p) fun fuel => statements (fuel + 1) parsed := by
  intro more spare _
  refine (statements_ended more parsed (p.pad ending (spare + 1)) ended).trans ?_
  rw [statements_ended fuel parsed p ended, advance_pad_at_end spare ends ended]

/-- What the statement takes of the end tokens, the statements behind it no longer have. -/
private theorem statements_agree_step {fuel k m : Nat} {ending : Token} {p : Parser} {parsed : Array Statement}
    {final : Array Statement × Parser} (closed : Closed p.upcoming) (going : p.current.kind ≠ .eof) (paid : p.rest.length < fuel)
    (first : Agrees ending k p (statement fuel p) statement)
    (others : Agrees ending m (settle fuel (statement fuel p).2) final
      fun more => statements (more + 1) (parsed ++ (statement fuel p).1.toArray)) :
    Agrees ending (m + k) p final fun more => statements (more + 1) parsed := by
  intro more spare enough
  obtain ⟨more, rfl⟩ : ∃ n, more = n + 1 := ⟨more - 1, by omega⟩
  have shorter := statement_shortens fuel closed going (by omega)
  have within := settle_length fuel (statement fuel p).2
  have settles := settle_pad ending ((statement_reaches fuel p).closed closed) (Nat.lt_trans shorter paid)
    (Nat.lt_trans shorter enough) (spare + m)
  refine (statements_succ (more + 1) parsed (p.pad ending (spare + (m + k))) going).trans ?_
  rw [← Nat.add_assoc, first (more + 1) (spare + m) enough, settles]
  exact others more spare (by omega)

/-- The program takes one end token, or two if an expression has stopped at the first. -/
theorem statements_agree {fuel : Nat} {ending : Token} {p : Parser} (ends : EndsWith ending p) (paid : p.rest.length < fuel)
    (parsed : Array Statement) :
    ∃ taken, (taken = 1 ∨ taken = 2) ∧
      Agrees ending taken p (statements (fuel + 1) parsed p) fun fuel => statements (fuel + 1) parsed := by
  induction fuel generalizing p parsed with
  | zero => exact absurd paid (Nat.not_lt_zero _)
  | succ fuel ih =>
    by_cases ended : p.current.kind = .eof
    · exact ⟨1, Or.inl rfl, statements_agree_at_end ends ended (fuel + 1) parsed⟩
    · have shorter := statement_shortens (fuel + 1) ends.closed ended (Nat.succ_pos fuel)
      have within := settle_length (fuel + 1) (statement (fuel + 1) p).2
      have settled := (ends.reaches (statement_reaches (fuel + 1) p)).settle (fuel + 1)
      rw [statements_succ (fuel + 1) parsed p ended]
      rcases statement_demands ends paid with plain | ⟨stopped, one⟩
      · obtain ⟨taken, few, others⟩ := ih settled (by omega) (parsed ++ (statement (fuel + 1) p).1.toArray)
        have whole := statements_agree_step ends.closed ended paid plain others
        exact ⟨taken, few, whole⟩
      · have still : (settle (fuel + 1) (statement (fuel + 1) p).2).current.kind = .eof := by
          rw [settle_at_end stopped]
          exact stopped
        have others := statements_agree_at_end settled still fuel (parsed ++ (statement (fuel + 1) p).1.toArray)
        have whole := statements_agree_step ends.closed ended paid one others
        exact ⟨2, Or.inr rfl, whole⟩

theorem EndsWith.of_calls {c : Cursor} {last : Nat} (inside : ∀ n < last, (c.after n).next.1.kind ≠ .eof)
    (closed : Closed (c.calls (last + 1))) : EndsWith (c.after last).next.1 (Parser.start (c.calls (last + 1))) := by
  apply EndsWith.start closed
  intro t member here
  obtain ⟨n, below, rfl⟩ := List.mem_map.mp member
  have same : n = last := by
    apply Nat.le_antisymm (Nat.le_of_lt_succ (List.mem_range.mp below))
    exact Nat.le_of_not_lt fun earlier => inside n earlier here
  rw [same]

/-- The calls up to the first end token, and one or two further ones, are all that the parser takes. -/
theorem statements_calls {c : Cursor} (aligned : c.Aligned) {last : Nat} (ended : (c.after last).next.1.kind = .eof)
    (inside : ∀ n < last, (c.after n).next.1.kind ≠ .eof) (closed : Closed (c.calls (last + 1))) :
    let all := c.calls (last + 1)
    let done := statements (fuelFor all) #[] (start all)
    ∃ taken, (taken = 1 ∨ taken = 2) ∧ ∀ fuel spare, last + 2 < fuel →
      statements fuel #[] (start (c.calls (last + taken + 1 + spare))) = (done.1, done.2.pad (c.after last).next.1 spare) := by
  intro all done
  have started : (start (c.calls (last + 1))).rest.length ≤ last + 1 := by
    have size : all.length = last + 1 := by simp [all, Cursor.calls]
    exact Nat.le_trans (take_suffix _ all).length_le (Nat.le_of_eq size)
  obtain ⟨taken, few, agrees⟩ := statements_agree (EndsWith.of_calls inside closed) (Visits.start.ready closed).paid #[]
  refine ⟨taken, few, ?_⟩
  intro fuel spare enough
  obtain ⟨fuel, rfl⟩ : ∃ n, fuel = n + 1 := ⟨fuel - 1, by omega⟩
  have row : c.calls (last + taken + 1 + spare) = all ++ List.replicate (spare + taken) (c.after last).next.1 := by
    rw [← aligned.calls_at_end ended]
    congr 1
    omega
  rw [row, start_pad (spare + taken) closed]
  exact agrees fuel spare (by omega)

/-- When the parser is done, it stands at the end token and has taken all tokens. -/
theorem statements_done {tokens : List Token} (closed : Closed tokens) :
    let done := statements (fuelFor tokens) #[] (start tokens)
    done.2.current.kind = .eof ∧ done.2.rest = [] := by
  intro done
  obtain ⟨_, q, all, visited, ended, final⟩ := Visits.ends closed .start #[]
  rw [show done = _ from final]
  exact ⟨ended, (visited.ready closed).closed.rest_eq_nil ended⟩

/-- What a parser that is done says of the program. -/
def verdict (done : Array Statement × Parser) : Except (List Diagnostic) Program :=
  if done.2.diagnostics = #[] then .ok ⟨done.1.toList, done.2.previous.line⟩ else .error done.2.diagnostics.toList

theorem skip_step (fuel : Nat) (p : Parser) : p.AtBoundary ∨ skip (fuel + 1) p = skip fuel p.advance := by
  rw [skip]
  split
  next stops => exact Or.inl (by simpa [AtBoundary, or_assoc] using stops)
  · exact Or.inr rfl

end Parser

/-- The compiler calls for tokens until it is at the end of the program, and the number of calls is at most three more than
the length of the program. The tokens that further calls would return make no difference, and neither does more fuel than
that. Before the end every step takes a token: a step over what is skipped, an expression and a statement. -/
theorem compile_reads_to_end (source : Text) :
    let c := Cursor.start source
    (∃ last < source.length + 3, (c.after last).next.1.kind = .eof ∧ (c.after (last + 1)).unread = [] ∧
      ∀ fuel count, source.length + 3 ≤ fuel → last < count →
        let done := Parser.statements fuel #[] (Parser.start (c.calls count))
        done.2.current.kind = .eof ∧ c.calls count = c.calls (last + 1) ++ done.2.rest ∧
          compile source = (Parser.verdict done).map fun p => Chunk.ofCode p.code) ∧
    ∀ fuel (p : Parser), Closed p.upcoming → p.current.kind ≠ .eof →
      (p.AtBoundary ∨ Parser.skip (fuel + 1) p = Parser.skip fuel p.advance) ∧ p.advance.rest.length < p.rest.length ∧
      (∀ floor, (Parser.expression (fuel + 1) floor p).2.rest.length < p.rest.length) ∧
      (Parser.statement (fuel + 1) p).2.rest.length < p.rest.length := by
  intro c
  refine ⟨?_, ?_⟩
  · have aligned : c.Aligned := Cursor.start_aligned source
    obtain ⟨first, ended, inside, reads⟩ := Token.all_calls source
    have short : first ≤ source.length := by
      have taken := aligned.calls_le_length inside
      rw [show c.unread = source from source.spell_glyphs] at taken
      omega
    have closed : Closed (c.calls (first + 1)) := reads ▸ Token.closed_all source
    obtain ⟨taken, few, runs⟩ := Parser.statements_calls aligned ended inside closed
    obtain ⟨finished, empty⟩ := Parser.statements_done closed
    have later : (c.after (first + taken)).next.1.kind = .eof := aligned.ended_after (Nat.le_add_right _ _) ended
    refine ⟨first + taken, by omega, later, (aligned.after _).unread_at_end later, ?_⟩
    intro fuel count enough many done
    obtain ⟨spare, rfl⟩ : ∃ n, count = first + taken + 1 + n := ⟨count - (first + taken + 1), by omega⟩
    rw [show done = _ from runs fuel spare (by omega)]
    refine ⟨finished, ?_, ?_⟩
    · rw [aligned.calls_at_end later, aligned.after_end ended]
      simp [Parser.pad, empty]
    · rw [compile, Program.parse_eq, reads]
      rfl
  · intro fuel p closed more
    refine ⟨Parser.skip_step fuel p, Parser.advance_shortens closed more, ?_, ?_⟩
    · intro floor
      exact Parser.expression_shortens floor closed more (Nat.succ_pos fuel)
    · exact Parser.statement_shortens (fuel + 1) closed more (Nat.succ_pos fuel)

end ExprLang
