import ExprLang.Interpreter.Basic
import ExprLang.Proofs.Shipping
import ExprLang.Proofs.TokenGaps

/-! What the interpreter answers. If the tree of a program has a value and the stack is large enough for it, the answer is
that value, shown as its literal is. A program of one expression has the value of the expression. -/

namespace ExprLang

/-- How a literal is shown as a result. -/
def Literal.text : Literal → Text
  | nil => utf8 "nil"
  | bool b => if b then utf8 "true" else utf8 "false"
  | integer n => Text.ofInt n.toInt
  | double w => Binary64.text w
  | string s => s

theorem Value.Denotes.format_eq {strings : StringTable} {v : Value} {l : Literal} (denotes : v.Denotes strings l) :
    strings.format v = l.text := by
  cases denotes with
  | string _ entry => simp [StringTable.format, entry, Literal.text]
  | _ => rfl

theorem Machine.le_new_capacity_iff {need : Nat} (usual : need ≤ defaultCapacity) (stackSize : Int) (tracing : Bool) :
    need ≤ (new stackSize tracing).capacity ↔ stackSize ≤ 0 ∨ (need : Int) ≤ stackSize := by
  simp only [new]
  split <;> omega

theorem Config.run_outcome (config : Config) (common : List (String × Text)) {c : Chunk} (lined : c.code.size = c.lines.size)
    {v : Value} (value : ((Machine.new config.stackSize config.trace).execute (some c)).outcome = .ok v) :
    (config.run common c).1 = .ok v (c.strings.format v) := by
  have strings : ((Machine.new config.stackSize config.trace).execute (some c)).machine.strings = c.strings := by
    rw [Machine.execute_lined _ lined]
    rfl
  simp only [run, value, strings]

theorem interpret_outcome (config : Config) (name : Text) {source : Text} {c : Chunk} (compiled : compile source = .ok c) :
    (interpret config name source).outcome = (config.run [("run", name)] c).1 := by
  simp only [interpret, compiled]

/-- The interpreter answers with the value of the tree. -/
theorem interpret_of_eval {source : Text} {p : Program} (parsed : Program.parse source = .ok p) {l : Literal}
    (value : p.eval = .ok l) (config : Config) (name : Text)
    (fits : p.stackNeed ≤ (Machine.new config.stackSize config.trace).capacity) :
    ∃ v strings, (interpret config name source).outcome = .ok v l.text ∧ v.Denotes strings l := by
  have compiled : compile source = .ok (.ofCode p.code) := by simp only [compile, parsed, Except.map]
  have lined := (compiled_settled compiled).1.tidy.lined.symm
  obtain ⟨q, _, unique, runs⟩ := compiled_follows compiled
  obtain rfl := unique p (Program.parse_spelt parsed).1
  rw [interpret_outcome config name compiled]
  have run := runs (Machine.new config.stackSize config.trace)
  generalize ran : ((Machine.new config.stackSize config.trace).execute _).outcome = outcome at run
  generalize ((Machine.new config.stackSize config.trace).execute _).machine.stack.values = stack at run
  cases run with
  | @value v l' same denotes _ =>
    obtain rfl := Except.ok.inj (value.symm.trans same)
    exact ⟨v, _, denotes.format_eq ▸ config.run_outcome _ lined ran, denotes⟩
  | fault failed => exact absurd (value.symm.trans failed) (by simp)
  | overflow _ small => exact absurd fits (Nat.not_le_of_lt small)

namespace Program

/-- What may follow the expression of a program that has no other. -/
def endings : List (List TokenKind) :=
  [[.eof], [.semicolon, .eof]]

theorem spelt_single {ts ending : List Token} {e : Expr} (spelt : Expr.Spelt .equality ts e)
    (ends : ending.map Token.kind ∈ endings) : ∃ line endLine, Spelt (ts ++ ending) ⟨[⟨e, line⟩], endLine⟩ := by
  simp only [endings, List.mem_cons, List.not_mem_nil, or_false, List.map_eq_cons_iff, List.map_eq_nil_iff] at ends
  rcases ends with ⟨last, _, rfl, ended, rfl⟩ | ⟨sign, _, rfl, ended, last, _, rfl, final, rfl⟩
  · obtain ⟨front, t, rfl⟩ := List.eq_nil_or_concat ts |>.resolve_left spelt.ne_nil
    rw [List.concat_eq_append] at spelt ⊢
    exact ⟨t.line, last.line, _, last, rfl, ended, rfl, .last spelt⟩
  · exact ⟨sign.line, last.line, ts ++ [sign], last, by simp, final, rfl, .more spelt ended .none⟩

theorem parse_single {source : Text} {ts ending : List Token} (tokens : Token.all source = ts ++ ending)
    (ends : ending.map Token.kind ∈ endings) {e : Expr} (spelt : Expr.Spelt .equality ts e)
    (valued : ∀ t ∈ Token.all source, t.Valued) (room : (Token.all source).countP Token.isPooled ≤ Chunk.poolLimit) :
    ∃ p, parse source = .ok p ∧ p.eval = e.eval ∧ p.stackNeed = max e.stackNeed 1 := by
  obtain ⟨line, endLine, single⟩ := spelt_single spelt ends
  refine ⟨_, parse_of_spelt (tokens ▸ single) valued room, ?_, rfl⟩
  simp only [eval, evalFrom]
  cases e.eval <;> rfl

end Program

/-- A divided text is interpreted as the expression that its tokens spell. -/
theorem Divided.interpret {source : Text} {faces : List (TokenKind × Text)} (divided : Divided source faces)
    (ranged : ∀ f ∈ faces, Token.InRange ⟨f.1, f.2, 0⟩) (few : faces.length < Chunk.poolLimit) {l : Literal} {need : Nat}
    (reads : ∀ ts : List Token, ts.map Token.face = faces →
      ∃ e, Expr.Spelt .equality ts e ∧ e.eval = .ok l ∧ max e.stackNeed 1 = need)
    (config : Config) (name : Text) (fits : need ≤ (Machine.new config.stackSize config.trace).capacity) :
    ∃ v strings, (ExprLang.interpret config name source).outcome = .ok v l.text ∧ v.Denotes strings l := by
  have valued (t : Token) (member : t ∈ Token.all source) : t.Valued := by
    have face := divided.all ▸ List.mem_map_of_mem (f := Token.face) member
    rw [t.valued_iff]
    rcases List.mem_append.mp face with inside | last
    · exact ranged _ inside
    · have ended : t.kind = .eof := (Prod.mk.inj (List.mem_singleton.mp last)).1
      simp [Token.InRange, ended]
  have room : (Token.all source).countP Token.isPooled ≤ Chunk.poolLimit := by
    have size := congrArg List.length divided.all
    rw [List.length_map, List.length_append, List.length_singleton] at size
    exact Nat.le_trans List.countP_le_length (size ▸ few)
  obtain ⟨ts, ending, tokens, same, last⟩ := List.map_eq_append_iff.mp divided.all
  have ends : ending.map Token.kind ∈ Program.endings := by
    obtain ⟨t, rfl, face⟩ := List.map_eq_singleton_iff.mp last
    rw [List.map_singleton, (Prod.mk.inj face).1]
    decide
  obtain ⟨e, spelt, value, needs⟩ := reads ts same
  obtain ⟨p, parsed, evaluated, needed⟩ := Program.parse_single tokens ends spelt valued room
  exact interpret_of_eval parsed (evaluated.trans value) config name (needed.trans needs ▸ fits)

end ExprLang
