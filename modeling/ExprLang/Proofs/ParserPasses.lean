import ExprLang.Proofs.GrammarLayers

/-! Passing tokens without a problem. The parser that stands behind them is then determined by them:
they were the next tokens, their constants are counted, and nothing was reported. -/

namespace ExprLang

/-- The token is no number out of range. -/
def Token.Valued (t : Token) : Prop :=
  ∃ l, Literal.ofToken t = .ok l

theorem Token.valued_of_plain {t : Token} (plain : t.isPooled = false) : t.Valued := by
  revert plain
  unfold isPooled Valued Literal.ofToken
  cases t.kind <;> simp

namespace Parser
open Token (Closed)

structure Passed (p : Parser) (ts : List Token) (q : Parser) : Prop where
  tokens : p.upcoming = ts ++ q.upcoming
  previous : q.previous = ts.getLast?.getD p.previous
  valued : ∀ t ∈ ts, t.Valued
  pooled : q.pooled = p.pooled + ts.countP Token.isPooled
  panicking : q.panicking = p.panicking
  diagnostics : q.diagnostics = p.diagnostics

namespace Passed

theorem nothing (p : Parser) : Passed p [] p :=
  ⟨rfl, rfl, by simp, rfl, rfl, rfl⟩

theorem trans {p q r : Parser} {ts us : List Token} (first : Passed p ts q) (second : Passed q us r) :
    Passed p (ts ++ us) r := by
  refine ⟨?_, ?_, ?_, ?_, second.panicking.trans first.panicking, second.diagnostics.trans first.diagnostics⟩
  · rw [first.tokens, second.tokens, List.append_assoc]
  · rw [second.previous, first.previous, List.getLast?_append]
    cases us.getLast? <;> rfl
  · intro t member
    rcases List.mem_append.mp member with member | member
    · exact first.valued t member
    · exact second.valued t member
  · rw [second.pooled, first.pooled, List.countP_append, Nat.add_assoc]

theorem rest_length {p q : Parser} {ts : List Token} (passed : Passed p ts q) :
    ts.length + q.rest.length = p.rest.length := by
  have same := congrArg List.length passed.tokens
  simp only [upcoming, List.length_append, List.length_cons] at same
  omega

end Passed

theorem advance_eq {p : Parser} {t u : Token} {rest : List Token} (here : p.upcoming = t :: u :: rest)
    (valid : u.kind ≠ .error) : p.advance = { p with previous := t, current := u, rest := rest } := by
  obtain ⟨rfl, next⟩ := List.cons.inj here
  exact advance_passes p [] u rest next (by simp) valid

theorem passed_advance {p : Parser} {t u : Token} {rest : List Token} (here : p.upcoming = t :: u :: rest)
    (valid : u.kind ≠ .error) (plain : t.isPooled = false) : Passed p [t] p.advance := by
  rw [advance_eq here valid]
  exact ⟨here, rfl, by simpa using Token.valued_of_plain plain, by simp [plain], rfl, rfl⟩

theorem next_of_calm {p : Parser} (closed : Closed p.upcoming) (more : p.current.kind ≠ .eof)
    (calm : p.advance.panicking = false) : ∃ u rest, p.upcoming = p.current :: u :: rest ∧ u.kind ≠ .error := by
  rcases advance_cases closed with ⟨ended, _⟩ | ⟨_, errors, u, rest, front, _, valid, same⟩
  · exact absurd ended more
  · cases errors with
    | nil => exact ⟨u, rest, by simp [upcoming, front], valid⟩
    | cons e errors => simp [same, passTo, reportFirst] at calm

theorem isPooled_eq {t : Token} {l : Literal} (value : Literal.ofToken t = .ok l) : l.isPooled = t.isPooled := by
  rw [← Literal.denoted_eq value, Literal.isPooled_denoted]

theorem passed_literal {p : Parser} {t u : Token} {rest : List Token} {l : Literal}
    (here : p.upcoming = t :: u :: rest) (valid : u.kind ≠ .error) (value : Literal.ofToken t = .ok l)
    (room : t.isPooled = true → p.pooled < Chunk.poolLimit) :
    p.advance.literal.1 = some (.literal l t.line) ∧ Passed p [t] p.advance.literal.2 := by
  have pools := isPooled_eq value
  rw [advance_eq here valid]
  simp only [literal, value]
  cases pooled : t.isPooled with
  | false =>
    rw [pooled] at pools
    simp only [pools, Bool.not_false, if_true]
    exact ⟨trivial, here, rfl, by simpa using ⟨l, value⟩, by simp [pooled], rfl, rfl⟩
  | true =>
    rw [pooled] at pools
    simp only [pools, Bool.not_true, Bool.false_eq_true, if_false, room pooled, if_true]
    exact ⟨trivial, here, rfl, by simpa using ⟨l, value⟩, by simp [pooled], rfl, rfl⟩

/-- Without a problem a literal is in range and its constant has room in the pool. -/
theorem value_of_calm {p : Parser} (calm : p.literal.2.panicking = false) :
    ∃ l, Literal.ofToken p.previous = .ok l ∧ (l.isPooled = true → p.pooled < Chunk.poolLimit) := by
  unfold literal at calm
  split at calm
  · simp at calm
  next l value =>
    refine ⟨l, value, ?_⟩
    intro pools
    simp only [pools, Bool.not_true, Bool.false_eq_true, if_false] at calm
    split at calm
    next room => exact room
    · simp at calm

end Parser

end ExprLang
