import ExprLang.Proofs.GrammarSound

/-! What the grammar spells, a parser accepts, and it finds the tree that is spelt. An expression leads
the parser to the point where it holds the tree as a left operand and looks for the next operator. The
grammar has its left operands nested to any depth; the parser meets them in a row. -/

namespace ExprLang.Parser
open Token (Closed)

theorem Passed.paid {p q : Parser} {ts : List Token} {fuel : Nat} (passed : Passed p ts q) (nonempty : ts ≠ [])
    (paid : p.rest.length < fuel + 1) : q.rest.length < fuel := by
  have taken := passed.rest_length
  have positive := List.length_pos_iff.mpr nonempty
  omega

theorem Passed.shorter {p q : Parser} {ts : List Token} {fuel : Nat} (passed : Passed p ts q)
    (paid : p.rest.length < fuel) : q.rest.length < fuel := by
  have taken := passed.rest_length
  omega

/-- The parser is about to read these tokens, with room for their constants and fuel for all that is left. -/
structure Offers (p : Parser) (ts : List Token) (follow : Token) (fuel : Nat) : Prop where
  tokens : ∃ more, p.upcoming = ts ++ follow :: more
  valid : ∀ t ∈ ts ++ [follow], t.kind ≠ .error
  valued : ∀ t ∈ ts, t.Valued
  room : p.pooled + ts.countP Token.isPooled ≤ Chunk.poolLimit
  paid : p.rest.length < fuel

namespace Offers
variable {p q : Parser} {ts us : List Token} {t follow : Token} {fuel : Nat}

theorem front (offers : Offers p (ts ++ t :: us) follow fuel) : Offers p ts t fuel := by
  obtain ⟨more, tokens⟩ := offers.tokens
  refine ⟨⟨us ++ follow :: more, by simpa using tokens⟩, ?_, ?_, ?_, offers.paid⟩
  · intro u member
    apply offers.valid u
    simp only [List.mem_append, List.mem_cons, List.not_mem_nil, or_false] at member ⊢
    rcases member with member | same
    · exact Or.inl (Or.inl member)
    · exact Or.inl (Or.inr (Or.inl same))
  · exact fun u member => offers.valued u (by simp [member])
  · have room := offers.room
    rw [List.countP_append] at room
    omega

theorem back (offers : Offers p (ts ++ us) follow fuel) (passed : Passed p ts q) {left : Nat}
    (paid : q.rest.length < left) : Offers q us follow left := by
  obtain ⟨more, tokens⟩ := offers.tokens
  refine ⟨⟨more, ?_⟩, ?_, ?_, ?_, paid⟩
  · rw [passed.tokens, List.append_assoc] at tokens
    exact List.append_cancel_left tokens
  · intro u member
    apply offers.valid u
    simp only [List.mem_append] at member ⊢
    rcases member with member | member
    · exact Or.inl (Or.inr member)
    · exact Or.inr member
  · exact fun u member => offers.valued u (by simp [member])
  · have room := offers.room
    rw [List.countP_append] at room
    rw [passed.pooled]
    omega

theorem current (offers : Offers p (t :: ts) follow fuel) : p.current = t := by
  obtain ⟨more, tokens⟩ := offers.tokens
  exact (List.cons.inj tokens).1

theorem current_mem (offers : Offers p ts follow fuel) (nonempty : ts ≠ []) : p.current ∈ ts := by
  cases ts with
  | nil => exact absurd rfl nonempty
  | cons t ts => simp [offers.current]

theorem current_follow (offers : Offers p ts follow fuel) (passed : Passed p ts q) : q.current = follow := by
  obtain ⟨more, tokens⟩ := offers.tokens
  rw [passed.tokens] at tokens
  exact (List.cons.inj (List.append_cancel_left tokens)).1

theorem next (offers : Offers p (t :: ts) follow fuel) :
    ∃ u rest, p.upcoming = t :: u :: rest ∧ u.kind ≠ .error := by
  obtain ⟨more, tokens⟩ := offers.tokens
  cases ts with
  | nil => exact ⟨follow, more, tokens, offers.valid follow (by simp)⟩
  | cons u ts => exact ⟨u, ts ++ follow :: more, tokens, offers.valid u (by simp)⟩

theorem enter (offers : Offers p (t :: ts) follow (fuel + 1)) (plain : t.isPooled = false) :
    Passed p [t] p.advance ∧ Offers p.advance ts follow fuel := by
  obtain ⟨u, rest, here, valid⟩ := offers.next
  have passed := passed_advance here valid plain
  have whole : Offers p ([t] ++ ts) follow (fuel + 1) := offers
  exact ⟨passed, whole.back passed (passed.paid (by simp) offers.paid)⟩

theorem positive (offers : Offers p ts follow fuel) : ∃ n, fuel = n + 1 :=
  Nat.exists_eq_add_one_of_ne_zero (Nat.ne_of_gt (Nat.zero_lt_of_lt offers.paid))

end Offers

theorem climb_stops {floor : Precedence} {p : Parser} (ends : Ends floor p.current) (fuel : Nat) (left : Option Expr) :
    climb fuel floor left p = (left, p) := by
  cases fuel with
  | zero => rw [climb]
  | succ fuel =>
    rw [climb_succ]
    split
    · rfl
    next op joins =>
      have below := ends op joins
      rw [if_neg]
      intro binds
      have above := (BinaryOp.level_le_iff floor op).mp binds
      omega

theorem conclude_tight {floor : Precedence} (tight : Precedence.assignment.level < floor.level)
    (parsed : Option Expr × Parser) : conclude floor parsed = parsed := by
  unfold conclude
  rw [if_neg]
  simp only [Bool.and_eq_true, decide_eq_true_eq, not_and]
  omega

theorem conclude_plain (floor : Precedence) {parsed : Option Expr × Parser} (plain : parsed.2.current.kind ≠ .equal) :
    conclude floor parsed = parsed := by
  simp [conclude, plain]

/-- The parser reads the tokens and then holds their tree as a left operand. -/
def Holds (floor : Precedence) (p : Parser) (fuel : Nat) (ts : List Token) (e : Expr) : Prop :=
  ∃ left q, Passed p ts q ∧ q.rest.length < left ∧ expression fuel floor p = conclude floor (climb left floor (some e) q)

/-- Where no operator can follow, the tree that the parser holds is what it finds. -/
private theorem Holds.finds {floor : Precedence} {p : Parser} {fuel : Nat} {ts : List Token} {follow : Token} {e : Expr}
    (holds : Holds floor p fuel ts e) (offers : Offers p ts follow fuel) (ends : Ends floor follow)
    (plain : Precedence.assignment.level < floor.level ∨ follow.kind ≠ .equal) :
    ∃ q, Passed p ts q ∧ q.current = follow ∧ expression fuel floor p = (some e, q) := by
  obtain ⟨left, q, passed, _, same⟩ := holds
  have here := offers.current_follow passed
  rw [climb_stops (here ▸ ends)] at same
  refine ⟨q, passed, here, same.trans ?_⟩
  rcases plain with tight | plain
  · exact conclude_tight tight _
  · exact conclude_plain floor (here ▸ plain)

private theorem ends_of_no_operator {floor : Precedence} {t : Token} (noOperator : BinaryOp.ofKind? t.kind = none) :
    Ends floor t :=
  fun op found => by simp [noOperator] at found

private theorem holds_operand {floor : Precedence} {p q : Parser} {fuel : Nat} {t : Token} {ts : List Token} {e : Expr}
    {lead : Lead} (here : p.current = t) (leads : Lead.ofKind? t.kind = some lead)
    (parsed : operand fuel lead p.advance = (some e, q)) (passed : Passed p (t :: ts) q) (paid : p.rest.length < fuel + 1) :
    Holds floor p (fuel + 1) (t :: ts) e := by
  refine ⟨fuel, q, passed, passed.paid (by simp) paid, ?_⟩
  rw [expression_succ, here, leads]
  simp only [parsed]

/-- However an expression is offered, the parser comes to hold its tree. -/
def AlwaysHolds (layer : Layer) (ts : List Token) (e : Expr) : Prop :=
  ∀ floor p fuel follow, floor.layer.rank ≤ layer.rank → Offers p ts follow fuel → follow.Loosens layer →
    Holds floor p fuel ts e

private theorem literal_holds {t : Token} (leads : Lead.ofKind? t.kind = some .literal) :
    AlwaysHolds .primary [t] (.literal (Literal.denoted t) t.line) := by
  intro floor p fuel follow _ offers _
  obtain ⟨fuel, rfl⟩ := offers.positive
  obtain ⟨u, rest, here, valid⟩ := offers.next
  obtain ⟨l, value⟩ := offers.valued t (by simp)
  have room (pooled : t.isPooled = true) : p.pooled < Chunk.poolLimit := by
    have room := offers.room
    simp only [List.countP_cons, List.countP_nil, pooled, if_true] at room
    omega
  obtain ⟨parsed, passed⟩ := passed_literal here valid value room
  rw [Literal.denoted_eq value]
  exact holds_operand offers.current leads (Prod.ext parsed rfl) passed offers.paid

private theorem group_holds {opening closing : Token} {ts : List Token} {e : Expr} (opens : opening.kind = .leftParen)
    (closes : closing.kind = .rightParen) (inner : AlwaysHolds .equality ts e) :
    AlwaysHolds .primary (opening :: ts ++ [closing]) e := by
  intro floor p fuel follow _ offers _
  obtain ⟨fuel, rfl⟩ := offers.positive
  have noOperator : BinaryOp.ofKind? closing.kind = none := by simp [closes, BinaryOp.ofKind?]
  obtain ⟨entered, inside⟩ := Offers.enter offers (by simp [Token.isPooled, opens])
  have holds := inner .assignment _ _ _ (Nat.zero_le _) inside.front (fun op found => by simp [noOperator] at found)
  obtain ⟨q, passed, here, parsed⟩ :=
    holds.finds inside.front (ends_of_no_operator noOperator) (Or.inr (by simp [closes]))
  obtain ⟨left, _⟩ := (inside.back passed (Nat.lt_succ_self _)).enter (by simp [Token.isPooled, closes])
  have leads : Lead.ofKind? opening.kind = some .group := by simp [opens, Lead.ofKind?]
  apply holds_operand offers.current leads ?_ ((entered.trans passed).trans left) offers.paid
  simp only [operand, parsed, expect, here, closes, if_true]

private theorem unary_holds {t : Token} {op : UnaryOp} {ts : List Token} {e : Expr}
    (leads : Lead.ofKind? t.kind = some (.unary op)) (inner : AlwaysHolds .unary ts e) :
    AlwaysHolds .unary (t :: ts) (.unary op t.line e) := by
  intro floor p fuel follow _ offers loose
  obtain ⟨fuel, rfl⟩ := offers.positive
  obtain ⟨entered, inside⟩ := offers.enter (Token.plain_of_unary leads)
  have holds := inner .unary _ _ _ (by decide) inside loose
  obtain ⟨q, passed, here, parsed⟩ := holds.finds inside (fun op _ => op.rank_lt_unary) (Or.inl (by decide))
  apply holds_operand offers.current leads ?_ (entered.trans passed) offers.paid
  simp [operand, parsed, offers.current]

private theorem binary_holds {t : Token} {op : BinaryOp} {ls rs : List Token} {l r : Expr}
    (joins : BinaryOp.ofKind? t.kind = some op) (left : AlwaysHolds op.layer ls l)
    (right : AlwaysHolds op.layer.next rs r) : AlwaysHolds op.layer (ls ++ t :: rs) (.binary op t.line l r) := by
  intro floor p fuel follow wide offers loose
  have own : t.Loosens op.layer := by
    intro other found
    rw [joins, Option.some.injEq] at found
    exact Nat.le_of_eq (by rw [found])
  -- The left operand is held in front of the operator, which the parser then takes.
  obtain ⟨fuel, q, passed, paid, parsed⟩ := left floor p _ _ wide offers.front own
  have sign := offers.back passed paid
  obtain ⟨fuel, rfl⟩ := sign.positive
  obtain ⟨entered, inside⟩ := sign.enter (Token.plain_of_binary joins)
  have ends : Ends op.precedence.next follow := by
    intro other found
    rw [BinaryOp.layer_next, BinaryOp.rank_next]
    exact Nat.lt_succ_of_le (loose other found)
  have holds := right op.precedence.next _ _ _ (Nat.le_of_eq (by rw [BinaryOp.layer_next])) inside
    (loose.tighter op.layer.rank_le_next)
  obtain ⟨after, passed', _, parsed'⟩ := holds.finds inside ends (Or.inl (by cases op <;> decide))
  have both := entered.trans passed'
  refine ⟨fuel, after, passed.trans both, both.paid (by simp) paid, ?_⟩
  rw [parsed, climb_succ, sign.current, joins]
  simp only [(BinaryOp.level_le_iff floor op).mpr wide, if_true, parsed', Option.bind_some, Option.map_some]

theorem expression_holds {layer : Layer} {ts : List Token} {e : Expr} (spelt : Expr.Spelt layer ts e) :
    AlwaysHolds layer ts e := by
  induction spelt with
  | literal stands => exact literal_holds (Lead.ofKind?_eq_literal_iff.mpr stands)
  | group opens closes _ ih => exact group_holds opens closes ih
  | unary sign _ ih => exact unary_holds (Lead.ofKind?_eq_unary_iff.mpr sign) ih
  | binary sign _ _ left right => exact binary_holds (BinaryOp.ofKind?_eq_some_iff.mpr sign) left right
  | @tighter layer ts e _ ih =>
    intro floor p fuel follow wide offers loose
    exact ih floor p fuel follow (Nat.le_trans wide layer.rank_le_next) offers (loose.tighter layer.rank_le_next)

theorem statement_finds {ts : List Token} {e : Expr} (spelt : Expr.Spelt .equality ts e) {p : Parser} {fuel : Nat}
    {follow : Token} (offers : Offers p ts follow fuel) (ends : follow.kind = .semicolon ∨ follow.kind = .eof) :
    ∃ q, Passed p ts q ∧ q.current = follow ∧
      statement fuel p =
        if follow.kind = .semicolon then (some ⟨e, follow.line⟩, q.advance) else (some ⟨e, q.previous.line⟩, q) := by
  have noOperator : BinaryOp.ofKind? follow.kind = none := by
    rcases ends with sign | ended
    · simp [sign, BinaryOp.ofKind?]
    · simp [ended, BinaryOp.ofKind?]
  have holds := expression_holds spelt .assignment p fuel follow (Nat.zero_le _) offers
    (fun op found => by simp [noOperator] at found)
  obtain ⟨q, passed, here, parsed⟩ := holds.finds offers (ends_of_no_operator noOperator) (Or.inr (by
    rcases ends with sign | ended
    · simp [sign]
    · simp [ended]))
  refine ⟨q, passed, here, ?_⟩
  have plain := (spelt.kind_ne (offers.current_mem spelt.ne_nil)).2.2
  unfold statement
  rw [plain]
  simp only [parsed, here]
  rcases ends with sign | ended
  · simp [sign, here]
  · simp [ended]

private theorem statements_found {ending : Token} (ended : ending.kind = .eof) {p : Parser} (last : p.upcoming = [ending])
    (fuel : Nat) (parsed : Array Statement) :
    statements (fuel + 1) parsed p = (parsed, { p with previous := ending }) := by
  have here : p.current = ending := (List.cons.inj last).1
  have closed : Closed p.upcoming := by simp [last, Closed, ended]
  rw [(statements_at_end fuel parsed closed (here ▸ ended)).2, here]

/-- The statements of the grammar are found one by one, and nothing is reported. -/
theorem statements_find {ts : List Token} {ss : List Statement} (spelt : Statement.Spelt ts ss) {ending : Token}
    (ended : ending.kind = .eof) {p : Parser} {fuel : Nat} (offers : Offers p ts ending fuel)
    (whole : p.upcoming = ts ++ [ending]) (calm : p.panicking = false) (parsed : Array Statement) :
    ∃ q, Passed p ts q ∧ statements (fuel + 1) parsed p = (parsed ++ ss.toArray, { q with previous := ending }) := by
  induction spelt generalizing p fuel parsed with
  | none => exact ⟨p, .nothing p, by simpa using statements_found ended whole fuel parsed⟩
  | @last ts t e spelt =>
    have further := (spelt.kind_ne (offers.current_mem (by simp))).2.1
    obtain ⟨q, passed, _, same⟩ := statement_finds spelt offers (Or.inr ended)
    rw [if_neg (by simp [ended])] at same
    have line : q.previous = t := by simpa using passed.previous
    have quiet : q.panicking = false := passed.panicking.trans calm
    have remaining : q.upcoming = [ending] := List.append_cancel_left (passed.tokens.symm.trans whole)
    obtain ⟨fuel, rfl⟩ := offers.positive
    refine ⟨q, passed, ?_⟩
    rw [statements_succ _ _ _ further, same, settle_calm _ quiet, statements_found ended remaining, line]
    simp
  | @more ts rest t e others spelt sign _ ih =>
    have further := (spelt.kind_ne (offers.front.current_mem spelt.ne_nil)).2.1
    obtain ⟨q, passed, _, same⟩ := statement_finds spelt offers.front (Or.inl sign)
    rw [if_pos sign] at same
    have behind := offers.back passed (passed.shorter offers.paid)
    obtain ⟨fuel, rfl⟩ := offers.positive
    obtain ⟨entered, inside⟩ := behind.enter (by simp [Token.isPooled, sign])
    have both := passed.trans entered
    have quiet : q.advance.panicking = false := both.panicking.trans calm
    have remaining : q.advance.upcoming = rest ++ [ending] := by
      apply List.append_cancel_left
      rw [← both.tokens, whole]
      simp
    obtain ⟨r, passed', same'⟩ := ih inside remaining quiet (parsed ++ [(⟨e, t.line⟩ : Statement)])
    refine ⟨r, by simpa using both.trans passed', ?_⟩
    rw [statements_succ _ _ _ further, same, settle_calm _ quiet]
    simpa using same'

end ExprLang.Parser
