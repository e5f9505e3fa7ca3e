import ExprLang.Program.Grammar
import ExprLang.Proofs.ParserMoves

/-! The grammar against the tables of the parser. These read an operator or an operand where the grammar writes one. A parser
that looks for operators from some level on spells one layer of the grammar, and the next level belongs to the next layer. -/

namespace ExprLang

section Signs

theorem BinaryOp.ofKind?_eq_some_iff {k : TokenKind} {op : BinaryOp} : ofKind? k = some op ↔ k = op.sign := by
  constructor
  · intro joins
    cases k <;> cases joins <;> rfl
  · rintro rfl
    cases op <;> rfl

theorem Lead.ofKind?_eq_unary_iff {k : TokenKind} {op : UnaryOp} : ofKind? k = some (.unary op) ↔ k = op.sign := by
  constructor
  · intro leads
    cases k <;> cases leads <;> rfl
  · rintro rfl
    cases op <;> rfl

theorem Lead.ofKind?_eq_literal_iff {k : TokenKind} : ofKind? k = some .literal ↔ k ∈ TokenKind.literals := by
  cases k <;> decide

/-- A literal that the parser takes is the one that the token denotes. -/
theorem Literal.denoted_eq {t : Token} {l : Literal} (value : ofToken t = .ok l) : denoted t = l := by
  unfold ofToken at value
  unfold denoted
  cases kind : t.kind <;> simp only [kind] at value ⊢
  -- Only numbers can be out of range.
  case integer =>
    split at value <;> cases value
    rfl
  case double =>
    split at value <;> cases value
    next word found =>
      have rounds : Binary64.ofRatio? t.lexeme.decimal.1 t.lexeme.decimal.2 = some word := found
      rw [rounds, Option.getD_some]
  all_goals
    cases value
    rfl

end Signs

namespace Layer

def rank : Layer → Nat
  | equality => 0
  | comparison => 1
  | term => 2
  | factor => 3
  | unary => 4
  | primary => 5

theorem rank_le_next (layer : Layer) : layer.rank ≤ layer.next.rank := by
  cases layer <;> decide

end Layer

/-- The layer that an expression spells if its operators bind at least as strongly as a level. -/
def Precedence.layer (p : Precedence) : Layer :=
  if p.level ≤ equality.level then .equality
  else if p.level ≤ comparison.level then .comparison
  else if p.level ≤ term.level then .term
  else if p.level ≤ factor.level then .factor
  else .unary

theorem Precedence.rank_layer (p : Precedence) :
    p.layer.rank =
      if p.level ≤ 4 then 0 else if p.level ≤ 5 then 1 else if p.level ≤ 6 then 2
      else if p.level ≤ 8 then 3 else 4 := by
  simp only [layer, apply_ite Layer.rank]
  rfl

namespace BinaryOp

theorem level_le_iff (floor : Precedence) (op : BinaryOp) :
    floor.level ≤ op.precedence.level ↔ floor.layer.rank ≤ op.layer.rank := by
  rw [Precedence.rank_layer]
  cases op
  all_goals
    simp only [precedence, layer, Layer.rank, Precedence.equality, Precedence.comparison,
      Precedence.term, Precedence.factor]
    repeat' split
  all_goals omega

theorem layer_next (op : BinaryOp) : op.precedence.next.layer = op.layer.next := by
  cases op <;> decide

theorem rank_next (op : BinaryOp) : op.layer.next.rank = op.layer.rank + 1 := by
  cases op <;> rfl

theorem rank_lt_unary (op : BinaryOp) : op.layer.rank < Layer.unary.rank := by
  cases op <;> decide

end BinaryOp

theorem Precedence.rank_layer_le (p : Precedence) : p.layer.rank ≤ Layer.unary.rank := by
  rw [rank_layer, Layer.rank]
  repeat' split
  all_goals omega

namespace Token

/-- Tokens whose values go to the constant pool. -/
def isPooled (t : Token) : Bool :=
  match t.kind with
  | .integer | .double | .string => true
  | _ => false

theorem plain_of_unary {t : Token} {op : UnaryOp} (leads : Lead.ofKind? t.kind = some (.unary op)) : t.isPooled = false := by
  unfold isPooled
  split <;> simp_all [Lead.ofKind?]

theorem plain_of_binary {t : Token} {op : BinaryOp} (joins : BinaryOp.ofKind? t.kind = some op) : t.isPooled = false := by
  unfold isPooled
  split <;> simp_all [BinaryOp.ofKind?]

theorem ne_eof_of_lead {t : Token} {lead : Lead} (leads : Lead.ofKind? t.kind = some lead) : t.kind ≠ .eof := by
  intro ended
  simp [ended, Lead.ofKind?] at leads

theorem ne_eof_of_binary {t : Token} {op : BinaryOp} (joins : BinaryOp.ofKind? t.kind = some op) : t.kind ≠ .eof := by
  intro ended
  simp [ended, BinaryOp.ofKind?] at joins

theorem opens_of_group {t : Token} (leads : Lead.ofKind? t.kind = some .group) : t.kind = .leftParen := by
  unfold Lead.ofKind? at leads
  split at leads <;> simp_all

/-- No operator, or one of this layer or a looser one. Behind an expression of the layer such a token
belongs to what stands around the expression. -/
def Loosens (t : Token) (layer : Layer) : Prop :=
  ∀ op, BinaryOp.ofKind? t.kind = some op → op.layer.rank ≤ layer.rank

theorem Loosens.tighter {t : Token} {layer other : Layer} (loose : t.Loosens layer)
    (tighter : layer.rank ≤ other.rank) : t.Loosens other :=
  fun op found => Nat.le_trans (loose op found) tighter

theorem loosens_unary (t : Token) : t.Loosens .unary :=
  fun op _ => Nat.le_of_lt op.rank_lt_unary

end Token

theorem Literal.isPooled_denoted (t : Token) : (denoted t).isPooled = t.isPooled := by
  unfold denoted Token.isPooled
  cases t.kind <;> rfl

namespace Expr.Spelt

private theorem of_rank (n : Nat) {layer other : Layer} {ts : List Token} {e : Expr} (spelt : Spelt other ts e)
    (steps : other.rank = layer.rank + n) : Spelt layer ts e := by
  induction n generalizing layer with
  | zero =>
    have same : layer = other := by
      revert steps
      cases layer <;> cases other <;> decide
    exact same ▸ spelt
  | succ n ih =>
    apply tighter
    apply ih
    have room : layer.rank < Layer.primary.rank := by
      have bound : other.rank ≤ Layer.primary.rank := by cases other <;> decide
      omega
    have next : layer.next.rank = layer.rank + 1 := by
      revert room
      cases layer <;> decide
    omega

theorem loosen {layer other : Layer} {ts : List Token} {e : Expr} (spelt : Spelt other ts e)
    (looser : layer.rank ≤ other.rank) : Spelt layer ts e :=
  spelt.of_rank (other.rank - layer.rank) (by omega)

theorem ne_nil {layer : Layer} {ts : List Token} {e : Expr} (spelt : Spelt layer ts e) : ts ≠ [] := by
  induction spelt with
  | tighter _ ih => exact ih
  | _ => simp

/-- The tokens of an expression are operands, operators and parentheses. -/
theorem kinds {layer : Layer} {ts : List Token} {e : Expr} (spelt : Spelt layer ts e) :
    ∀ t ∈ ts, (Lead.ofKind? t.kind).isSome ∨ (BinaryOp.ofKind? t.kind).isSome ∨ t.kind = .rightParen := by
  induction spelt with
  | literal stands => simp [Lead.ofKind?_eq_literal_iff.mpr stands]
  | group opens closes _ ih =>
    intro t member
    simp only [List.cons_append, List.mem_cons, List.mem_append, List.not_mem_nil, or_false] at member
    rcases member with rfl | inner | rfl
    · simp [opens, Lead.ofKind?]
    · exact ih t inner
    · exact Or.inr (Or.inr closes)
  | unary sign _ ih =>
    intro t member
    rcases List.mem_cons.mp member with rfl | inner
    · simp [Lead.ofKind?_eq_unary_iff.mpr sign]
    · exact ih t inner
  | binary sign _ _ left right =>
    intro t member
    rcases List.mem_append.mp member with before | member
    · exact left t before
    · rcases List.mem_cons.mp member with rfl | after
      · simp [BinaryOp.ofKind?_eq_some_iff.mpr sign]
      · exact right t after
  | tighter _ ih => exact ih

theorem kind_ne {layer : Layer} {ts : List Token} {e : Expr} (spelt : Spelt layer ts e) {t : Token} (member : t ∈ ts) :
    t.kind ≠ .error ∧ t.kind ≠ .eof ∧ Parser.beginsStatement t.kind = false := by
  have kind := spelt.kinds t member
  revert kind
  cases t.kind <;> simp [Lead.ofKind?, BinaryOp.ofKind?, Parser.beginsStatement]

end Expr.Spelt

theorem Statement.Spelt.kind_ne {ts : List Token} {ss : List Statement} (spelt : Statement.Spelt ts ss) :
    ∀ t ∈ ts, t.kind ≠ .error := by
  induction spelt with
  | none => simp
  | last spelt => exact fun t member => (spelt.kind_ne member).1
  | @more ts rest sign e others spelt ends _ ih =>
    intro t member
    rcases List.mem_append.mp member with inner | member
    · exact (spelt.kind_ne inner).1
    · rcases List.mem_cons.mp member with rfl | later
      · simp [ends]
      · exact ih t later

end ExprLang
