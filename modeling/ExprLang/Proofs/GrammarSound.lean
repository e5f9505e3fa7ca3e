import ExprLang.Proofs.ParserPasses

/-! What a parser accepts is spelt by the grammar. Without a problem an expression passes tokens that
spell its tree, in the layer of the level it was looked for at, and it leaves no operator of that layer
behind. Fuel for every token that is left is enough. -/

namespace ExprLang.Parser
open Token (Closed)

/-- The token does not continue an expression whose operators bind at least as strongly as a level. -/
def Ends (floor : Precedence) (t : Token) : Prop :=
  ∀ op, BinaryOp.ofKind? t.kind = some op → op.layer.rank < floor.layer.rank

/-- The right operand of an operator took all operators that bind more strongly. -/
theorem Ends.loosens {op : BinaryOp} {t : Token} (ends : Ends op.precedence.next t) : t.Loosens op.layer := by
  intro other found
  have below := ends other found
  rw [BinaryOp.layer_next, BinaryOp.rank_next] at below
  omega

/-- Tokens passed without a problem, and the tree that they spell together with tokens before them. -/
def Accepts (layer : Layer) (before : List Token) (p : Parser) (parsed : Option Expr × Parser) : Prop :=
  ∃ ts e, parsed.1 = some e ∧ Passed p ts parsed.2 ∧ Expr.Spelt layer (before ++ ts) e

/-- Expressions are accepted as the grammar has them, as long as fuel lasts. -/
def NestedSound (fuel : Nat) : Prop :=
  ∀ floor p, Closed p.upcoming → p.rest.length < fuel → (expression fuel floor p).2.panicking = false →
    Accepts floor.layer [] p (expression fuel floor p) ∧ Ends floor (expression fuel floor p).2.current

theorem passes_plain {p : Parser} (closed : Closed p.upcoming) (more : p.current.kind ≠ .eof)
    (calm : p.advance.panicking = false) (plain : p.current.isPooled = false) : Passed p [p.current] p.advance := by
  obtain ⟨u, rest, here, valid⟩ := next_of_calm closed more calm
  exact passed_advance here valid plain

section Operands
variable {fuel : Nat} {p : Parser}

private theorem group_sound (nested : NestedSound fuel) (closed : Closed p.upcoming)
    (paid : p.advance.rest.length < fuel) (opens : p.current.kind = .leftParen)
    (calm : (operand fuel .group p.advance).2.panicking = false) :
    Accepts .primary [] p (operand fuel .group p.advance) := by
  have entered := (reaches_advance p).closed closed
  have inner := (expression_reaches fuel).1 .assignment p.advance
  simp only [operand, expect] at calm ⊢
  split at calm
  next closes =>
    have before := ((reaches_advance _).calm calm).1
    have opening := passes_plain closed (by simp [opens]) (inner.calm before).1 (by simp [Token.isPooled, opens])
    obtain ⟨⟨ts, e, parsed, passed, spelt⟩, _⟩ := nested .assignment p.advance entered paid before
    have closing := passes_plain (inner.closed entered) (by simp [closes]) calm (by simp [Token.isPooled, closes])
    refine ⟨[p.current] ++ ts ++ [(expression fuel .assignment p.advance).2.current], e, parsed, ?_, ?_⟩
    · rw [if_pos closes]
      exact (opening.trans passed).trans closing
    · exact .group opens closes spelt
  · simp at calm

private theorem unary_sound (nested : NestedSound fuel) (closed : Closed p.upcoming)
    (paid : p.advance.rest.length < fuel) {op : UnaryOp} (leads : Lead.ofKind? p.current.kind = some (.unary op))
    (calm : (operand fuel (.unary op) p.advance).2.panicking = false) :
    Accepts .unary [] p (operand fuel (.unary op) p.advance) := by
  have entered := (reaches_advance p).closed closed
  have inner := (expression_reaches fuel).1 .unary p.advance
  have opening : Passed p [p.current] p.advance := by
    exact passes_plain closed (Token.ne_eof_of_lead leads) (inner.calm calm).1 (Token.plain_of_unary leads)
  obtain ⟨⟨ts, e, parsed, passed, spelt⟩, _⟩ := nested .unary p.advance entered paid calm
  refine ⟨[p.current] ++ ts, .unary op p.current.line e, ?_, opening.trans passed, ?_⟩
  · simp [operand, parsed]
  · exact .unary (Lead.ofKind?_eq_unary_iff.mp leads) spelt

private theorem literal_sound (closed : Closed p.upcoming) (leads : Lead.ofKind? p.current.kind = some .literal)
    (calm : (operand fuel .literal p.advance).2.panicking = false) :
    Accepts .primary [] p (operand fuel .literal p.advance) := by
  obtain ⟨l, value, room⟩ := value_of_calm calm
  rw [advance_previous] at value
  have moved := ((operand_reaches fuel .literal p.advance).calm calm).1
  obtain ⟨u, rest, here, valid⟩ := next_of_calm closed (Token.ne_eof_of_lead leads) moved
  obtain ⟨parsed, passed⟩ := passed_literal here valid value (fun pooled => by
    simpa using room ((isPooled_eq value).trans pooled))
  refine ⟨[p.current], _, parsed, passed, ?_⟩
  rw [← Literal.denoted_eq value]
  exact .literal (Lead.ofKind?_eq_literal_iff.mp leads)

theorem operand_sound (nested : NestedSound fuel) (closed : Closed p.upcoming)
    (paid : p.advance.rest.length < fuel) {lead : Lead} (leads : Lead.ofKind? p.current.kind = some lead)
    (calm : (operand fuel lead p.advance).2.panicking = false) :
    Accepts .unary [] p (operand fuel lead p.advance) := by
  cases lead with
  | group =>
    obtain ⟨ts, e, parsed, passed, spelt⟩ := group_sound nested closed paid (Token.opens_of_group leads) calm
    exact ⟨ts, e, parsed, passed, spelt.loosen (by decide)⟩
  | unary op => exact unary_sound nested closed paid leads calm
  | literal =>
    obtain ⟨ts, e, parsed, passed, spelt⟩ := literal_sound closed leads calm
    exact ⟨ts, e, parsed, passed, spelt.loosen (by decide)⟩

end Operands

/-- From a left operand on, operators are taken as the grammar groups them. The next operator never binds
more strongly than those inside the operand. -/
def ClimbSound (fuel : Nat) : Prop :=
  ∀ floor layer before left p, Closed p.upcoming → p.rest.length < fuel → Expr.Spelt layer before left →
    floor.layer.rank ≤ layer.rank → p.current.Loosens layer → (climb fuel floor (some left) p).2.panicking = false →
    Accepts floor.layer before p (climb fuel floor (some left) p) ∧
      Ends floor (climb fuel floor (some left) p).2.current

private theorem conclude_of_calm {floor : Precedence} {parsed : Option Expr × Parser}
    (calm : (conclude floor parsed).2.panicking = false) : conclude floor parsed = parsed := by
  unfold conclude at calm ⊢
  split at calm
  · simp at calm
  next plain => rw [if_neg plain]

private theorem expression_step {fuel : Nat} (nested : NestedSound fuel) (climbs : ClimbSound fuel) :
    NestedSound (fuel + 1) := by
  intro floor p closed paid calm
  rw [expression_succ] at calm ⊢
  split at calm
  · simp at calm
  next lead leads =>
    have shorter := advance_shortens closed (Token.ne_eof_of_lead leads)
    have entered := (reaches_advance p).closed closed
    simp only at calm ⊢
    have plain := conclude_of_calm calm
    rw [plain] at calm ⊢
    have first := operand_reaches fuel lead p.advance
    have before := (((expression_reaches fuel).2 floor _ _).calm calm).1
    obtain ⟨ts, e, parsed, passed, spelt⟩ := operand_sound nested closed (by omega) leads before
    have taken := passed.rest_length
    have nonempty : 0 < ts.length := List.length_pos_iff.mpr spelt.ne_nil
    rw [parsed] at calm ⊢
    obtain ⟨⟨us, whole, parsed', passed', spelt'⟩, ends⟩ := climbs floor .unary ts e _ (first.closed entered) (by omega)
      spelt floor.rank_layer_le (Token.loosens_unary _) calm
    exact ⟨⟨ts ++ us, whole, parsed', passed.trans passed', spelt'⟩, ends⟩

private theorem climb_step {fuel : Nat} (nested : NestedSound fuel) (climbs : ClimbSound fuel) :
    ClimbSound (fuel + 1) := by
  intro floor layer before left p closed paid spelt tight loose calm
  have stops (ends : Ends floor p.current) : Accepts floor.layer before p (some left, p) ∧ Ends floor p.current :=
    ⟨⟨[], left, rfl, .nothing p, by simpa using spelt.loosen tight⟩, ends⟩
  rw [climb_succ] at calm ⊢
  split at calm
  next missing => exact stops (fun op joins => by simp [missing] at joins)
  next op joins =>
    split at calm
    next binds =>
      have more := Token.ne_eof_of_binary joins
      have shorter := advance_shortens closed more
      have entered := (reaches_advance p).closed closed
      have inner := (expression_reaches fuel).1 op.precedence.next p.advance
      simp only at calm ⊢
      have operand := (((expression_reaches fuel).2 floor _ _).calm calm).1
      have sign : Passed p [p.current] p.advance := by
        exact passes_plain closed more (inner.calm operand).1 (Token.plain_of_binary joins)
      obtain ⟨⟨rs, right, parsed, passed, speltRight⟩, ends⟩ := nested _ p.advance entered (by omega) operand
      rw [BinaryOp.layer_next] at speltRight
      have both : Expr.Spelt op.layer (before ++ p.current :: rs) (.binary op p.current.line left right) :=
        .binary (BinaryOp.ofKind?_eq_some_iff.mp joins) (spelt.loosen (loose op joins)) speltRight
      have taken := passed.rest_length
      rw [parsed] at calm ⊢
      obtain ⟨⟨us, whole, parsed', passed', spelt'⟩, last⟩ := climbs floor op.layer _ _ _ (inner.closed entered)
        (by omega) both ((BinaryOp.level_le_iff floor op).mp binds) ends.loosens calm
      rw [if_pos binds]
      exact ⟨⟨[p.current] ++ rs ++ us, whole, parsed', (sign.trans passed).trans passed', by simpa using spelt'⟩, last⟩
    next weak =>
      rw [if_neg weak]
      apply stops
      intro other found
      have same : other = op := by simpa [joins] using found.symm
      subst other
      have below := mt (BinaryOp.level_le_iff floor op).mpr weak
      omega

theorem expression_sound (fuel : Nat) : NestedSound fuel ∧ ClimbSound fuel := by
  induction fuel with
  | zero =>
    refine ⟨?_, ?_⟩
    · intro floor p _ paid
      exact absurd paid (Nat.not_lt_zero _)
    · intro floor layer before left p _ paid
      exact absurd paid (Nat.not_lt_zero _)
  | succ fuel ih => exact ⟨expression_step ih.1 ih.2, climb_step ih.1 ih.2⟩

theorem statement_sound {fuel : Nat} {p : Parser} (closed : Closed p.upcoming) (paid : p.rest.length < fuel)
    (calm : (statement fuel p).2.panicking = false) :
    ∃ ts e, (statement fuel p).1 = some ⟨e, (statement fuel p).2.previous.line⟩ ∧ Expr.Spelt .equality ts e ∧
      ((∃ t, t.kind = .semicolon ∧ Passed p (ts ++ [t]) (statement fuel p).2) ∨
        ((statement fuel p).2.current.kind = .eof ∧ Passed p ts (statement fuel p).2)) := by
  have inner := (expression_reaches fuel).1 .assignment p
  unfold statement at calm ⊢
  split at calm
  · simp at calm
  next plain =>
    rw [if_neg plain]
    simp only at calm ⊢
    split at calm
    next ended =>
      have before := ((reaches_advance _).calm calm).1
      obtain ⟨⟨ts, e, parsed, passed, spelt⟩, _⟩ := (expression_sound fuel).1 .assignment p closed paid before
      have sign := passes_plain (inner.closed closed) (by simp [ended]) calm (by simp [Token.isPooled, ended])
      rw [if_pos ended, parsed]
      exact ⟨ts, e, rfl, spelt, Or.inl ⟨_, ended, passed.trans sign⟩⟩
    next further =>
      split at calm
      next ended =>
        obtain ⟨⟨ts, e, parsed, passed, spelt⟩, _⟩ := (expression_sound fuel).1 .assignment p closed paid calm
        rw [if_neg further, if_pos ended, parsed]
        exact ⟨ts, e, rfl, spelt, Or.inr ⟨ended, passed⟩⟩
      · simp at calm

theorem settle_keeps (fuel : Nat) (p : Parser) : p.diagnostics.toList <+: (settle fuel p).diagnostics.toList := by
  unfold settle
  split
  · exact (skip_reaches fuel { p with panicking := false }).reports.keeps
  · exact List.prefix_refl _

theorem statements_keep (fuel : Nat) (parsed : Array Statement) (p : Parser) :
    p.diagnostics.toList <+: (statements fuel parsed p).2.diagnostics.toList := by
  induction fuel generalizing parsed p with
  | zero => exact List.prefix_refl _
  | succ fuel ih =>
    by_cases ended : p.current.kind = .eof
    · rw [statements_ended fuel parsed p ended]
      exact (reaches_advance p).reports.keeps
    · rw [statements_succ fuel parsed p ended]
      exact ((statement_reaches fuel p).reports.keeps.trans (settle_keeps fuel _)).trans (ih _ _)

private theorem calm_of_clean {fuel : Nat} {parsed : Array Statement} {p : Parser} (calm : p.panicking = false)
    (clean : (statements fuel parsed (settle fuel (statement fuel p).2)).2.diagnostics = #[]) :
    (statement fuel p).2.panicking = false := by
  rcases (statement_reaches fuel p).reports with ⟨flag, _⟩ | ⟨_, _, d, more⟩
  · exact flag.trans calm
  · have kept := (settle_keeps fuel (statement fuel p).2).trans (statements_keep fuel parsed _)
    rw [clean, more] at kept
    simp at kept

theorem statements_at_end (fuel : Nat) (parsed : Array Statement) {p : Parser} (closed : Closed p.upcoming)
    (ended : p.current.kind = .eof) :
    p.upcoming = [p.current] ∧ statements (fuel + 1) parsed p = (parsed, { p with previous := p.current }) := by
  rw [statements_ended fuel parsed p ended]
  rcases advance_cases closed with ⟨_, last, same⟩ | ⟨more, _⟩
  · exact ⟨by rw [upcoming, last], by rw [same]⟩
  · exact absurd ended more

/-- A program without diagnostics is one of the grammar. Its statements were parsed one by one, each of
them without a problem. -/
theorem statements_sound (fuel : Nat) (parsed : Array Statement) (p : Parser) (closed : Closed p.upcoming)
    (paid : p.rest.length + 1 < fuel) (calm : p.panicking = false)
    (clean : (statements fuel parsed p).2.diagnostics = #[]) :
    ∃ ts ss q, Statement.Spelt ts ss ∧ Passed p ts q ∧ Reaches p q ∧ q.upcoming = [q.current] ∧ q.current.kind = .eof ∧
      statements fuel parsed p = (parsed ++ ss.toArray, { q with previous := q.current }) := by
  induction fuel generalizing parsed p with
  | zero => exact absurd paid (Nat.not_lt_zero _)
  | succ fuel ih =>
    by_cases ended : p.current.kind = .eof
    · obtain ⟨last, same⟩ := statements_at_end fuel parsed closed ended
      exact ⟨[], [], p, .none, .nothing p, .refl, last, ended, by simpa using same⟩
    · rw [statements_succ fuel parsed p ended] at clean ⊢
      have shorter := statement_shortens fuel closed ended (by omega)
      have moves := statement_reaches fuel p
      have quiet := calm_of_clean calm clean
      obtain ⟨ts, e, parsed', spelt, shape⟩ := statement_sound closed (by omega) quiet
      rw [settle_calm fuel quiet, parsed'] at clean ⊢
      rcases shape with ⟨t, sign, passed⟩ | ⟨done, passed⟩
      · obtain ⟨us, ss, q, spelt', passed', moves', last, done, same⟩ := ih _ _ (moves.closed closed) (by omega) quiet clean
        refine ⟨ts ++ t :: us, ⟨e, t.line⟩ :: ss, q, .more spelt sign spelt', ?_, moves.trans moves', last, done, ?_⟩
        · simpa using passed.trans passed'
        · have line : (statement fuel p).2.previous = t := by simpa using passed.previous
          rw [same, line]
          simp
      · obtain ⟨fuel, rfl⟩ : ∃ n, fuel = n + 1 := ⟨fuel - 1, by omega⟩
        obtain ⟨last, same⟩ := statements_at_end fuel
          (parsed ++ (some (⟨e, (statement (fuel + 1) p).2.previous.line⟩ : Statement)).toArray) (moves.closed closed) done
        obtain ⟨front, t, rfl⟩ : ∃ front t, ts = front ++ [t] :=
          ⟨ts.dropLast, ts.getLast spelt.ne_nil, (List.dropLast_concat_getLast spelt.ne_nil).symm⟩
        have line : (statement (fuel + 1) p).2.previous = t := by simpa using passed.previous
        refine ⟨front ++ [t], [⟨e, t.line⟩], _, .last spelt, passed, moves, last, done, ?_⟩
        rw [same, line]
        simp

end ExprLang.Parser
