import Mathlib
import ExprLang.Proofs.Interpretation

/-! Sums, differences and products of integers. The machine computes them in words of 64 bits, and taking an integer to
its word commutes with every operator. So the answer is the word of the exact value, whatever was lost on the way. -/

namespace ExprLang

/-- The operators that are exact on unbounded integers. -/
def BinaryOp.exact? (op : BinaryOp) (x y : Int) : Option Int :=
  match op with
  | add => some (x + y)
  | subtract => some (x - y)
  | multiply => some (x * y)
  | _ => none

/-- The tokens of integer arithmetic. -/
def TokenKind.arithmetic : List TokenKind :=
  [.integer, .plus, .minus, .star, .leftParen, .rightParen]

/-- Tokens that spell an expression of a layer, with its exact value over the unbounded integers. -/
inductive Expr.Worth : Layer → List Token → Int → Prop
  | literal {t : Token} : t.kind = .integer → Worth .primary [t] t.lexeme.toNat
  | group {opening closing : Token} {ts : List Token} {z : Int} :
      opening.kind = .leftParen → closing.kind = .rightParen →
      Worth .equality ts z → Worth .primary (opening :: ts ++ [closing]) z
  | negate {t : Token} {ts : List Token} {z : Int} :
      t.kind = .minus → Worth .unary ts z → Worth .unary (t :: ts) (-z)
  | binary {t : Token} {op : BinaryOp} {ls rs : List Token} {x y z : Int} :
      t.kind = op.sign → op.exact? x y = some z →
      Worth op.layer ls x → Worth op.layer.next rs y → Worth op.layer (ls ++ t :: rs) z
  | tighter {layer : Layer} {ts : List Token} {z : Int} : Worth layer.next ts z → Worth layer ts z

theorem BinaryOp.exact?_of_arithmetic {op : BinaryOp} (made : op.sign ∈ TokenKind.arithmetic) (x y : Int) :
    ∃ z, op.exact? x y = some z := by
  cases op with
  | add | subtract | multiply => exact ⟨_, rfl⟩
  | _ => exact absurd made (by decide)

theorem BinaryOp.apply_exact {op : BinaryOp} {x y z : Int} (exact : op.exact? x y = some z) :
    op.apply (.integer (Int64.ofInt x)) (.integer (Int64.ofInt y)) = .ok (.integer (Int64.ofInt z)) := by
  cases op <;> cases exact
  · exact congrArg (Except.ok ∘ Literal.integer) (Int64.ofInt_add x y).symm
  · exact congrArg (Except.ok ∘ Literal.integer) (Int64.ofInt_sub x y).symm
  · exact congrArg (Except.ok ∘ Literal.integer) (Int64.ofInt_mul x y).symm

theorem UnaryOp.negate_exact (z : Int) : negate.apply (.integer (Int64.ofInt z)) = .ok (.integer (Int64.ofInt (-z))) :=
  congrArg (Except.ok ∘ Literal.integer) (Int64.ofInt_neg z).symm

theorem Literal.denoted_integer {t : Token} (kind : t.kind = .integer) :
    denoted t = .integer (Int64.ofInt t.lexeme.toNat) := by
  simp only [denoted, kind, Int64.ofInt_eq_ofNat]

namespace Expr

/-- Every expression of integer arithmetic has an exact value. -/
theorem Spelt.worth {layer : Layer} {ts : List Token} {e : Expr} (spelt : Spelt layer ts e)
    (made : ∀ t ∈ ts, t.kind ∈ TokenKind.arithmetic) : ∃ z, Worth layer ts z := by
  induction spelt with
  | @literal t stands =>
    have kind : t.kind = .integer := by
      have one := made t (by simp)
      revert one stands
      cases t.kind <;> decide
    exact ⟨_, .literal kind⟩
  | group opens closes _ ih =>
    obtain ⟨z, worth⟩ := ih (fun t member => made t (by simp [member]))
    exact ⟨z, .group opens closes worth⟩
  | @unary t op ts e sign _ ih =>
    have kind : t.kind = .minus := by
      have one := made t (by simp)
      rw [sign] at one ⊢
      revert one
      cases op <;> decide
    obtain ⟨z, worth⟩ := ih (fun t member => made t (by simp [member]))
    exact ⟨-z, .negate kind worth⟩
  | @binary t op ls rs l r sign _ _ left right =>
    obtain ⟨x, first⟩ := left (fun t member => made t (by simp [member]))
    obtain ⟨y, second⟩ := right (fun t member => made t (by simp [member]))
    obtain ⟨z, exact⟩ := BinaryOp.exact?_of_arithmetic (sign ▸ made t (by simp)) x y
    exact ⟨z, .binary sign exact first second⟩
  | tighter _ ih =>
    obtain ⟨z, worth⟩ := ih made
    exact ⟨z, .tighter worth⟩

/-- The tree of such an expression evaluates to the word of its exact value. -/
theorem Worth.eval {layer : Layer} {ts : List Token} {z : Int} (worth : Worth layer ts z) :
    ∃ e, Spelt layer ts e ∧ e.eval = .ok (.integer (Int64.ofInt z)) := by
  induction worth with
  | @literal t kind =>
    refine ⟨_, .literal (by rw [kind]; decide), ?_⟩
    rw [Expr.eval, Literal.denoted_integer kind]
  | group opens closes _ ih =>
    obtain ⟨e, spelt, value⟩ := ih
    exact ⟨e, .group opens closes spelt, value⟩
  | @negate t ts z kind _ ih =>
    obtain ⟨e, spelt, value⟩ := ih
    refine ⟨.unary .negate t.line e, .unary kind spelt, ?_⟩
    simp only [Expr.eval, value, UnaryOp.negate_exact, Except.mapError]
  | @binary t op ls rs x y z sign exact _ _ left right =>
    obtain ⟨l, first, before⟩ := left
    obtain ⟨r, second, after⟩ := right
    refine ⟨.binary op t.line l r, .binary sign first second, ?_⟩
    simp only [Expr.eval, before, after, BinaryOp.apply_exact exact, Except.mapError]
  | tighter _ ih =>
    obtain ⟨e, spelt, value⟩ := ih
    exact ⟨e, .tighter spelt, value⟩

end Expr

theorem Program.Spelt.single {ts ending : List Token} {p : Program} (spelt : Program.Spelt (ts ++ ending) p)
    (ends : ending.map Token.kind ∈ endings) (nonempty : ts ≠ []) (plain : ∀ t ∈ ts, t.kind ≠ .semicolon) :
    ∃ e, Expr.Spelt .equality ts e := by
  obtain ⟨us, last, same, _, _, spelt⟩ := spelt
  generalize p.statements = statements at spelt
  simp only [endings, List.mem_cons, List.not_mem_nil, or_false, List.map_eq_cons_iff, List.map_eq_nil_iff] at ends
  rcases ends with ⟨_, _, rfl, _, rfl⟩ | ⟨sign, _, rfl, ended, _, _, rfl, _, rfl⟩
  · obtain ⟨rfl, _⟩ := List.append_inj' same rfl
    cases spelt with
    | none => exact absurd rfl nonempty
    | last spelt => exact ⟨_, spelt⟩
    | more _ stops _ => exact absurd stops (plain _ (by simp))
  · obtain ⟨rfl, _⟩ : ts ++ [sign] = us ∧ _ := List.append_inj' ((List.append_assoc ts [sign] _).trans same) rfl
    generalize whole : ts ++ [sign] = us at spelt
    cases spelt with
    | none => simp at whole
    | @last front t e spelt =>
      obtain ⟨_, rfl⟩ : _ ∧ sign = t := by simpa using List.append_inj' whole rfl
      have kind := spelt.kinds sign (by simp)
      simp [ended, Lead.ofKind?, BinaryOp.ofKind?] at kind
    | @more front rest t e others spelt stops _ =>
      -- The semicolon that ends the first statement is the last token.
      rcases List.eq_nil_or_concat rest with rfl | ⟨behind, final, rfl⟩
      · obtain ⟨rfl, _⟩ := List.append_inj' whole rfl
        exact ⟨e, spelt⟩
      · have split : ts ++ [sign] = (front ++ t :: behind) ++ [final] := by simpa using whole
        obtain ⟨rfl, _⟩ := List.append_inj' split rfl
        exact absurd stops (plain t (by simp))

/-- Interpreting an expression of integer literals, sums, differences, products and negations gives the word that is
congruent to its exact value. -/
theorem integer_arithmetic_wraps_once {source : Text} {c : Chunk} (compiled : compile source = .ok c) {ts ending : List Token}
    (tokens : Token.all source = ts ++ ending) (nonempty : ts ≠ []) (made : ∀ t ∈ ts, t.kind ∈ TokenKind.arithmetic)
    (ends : ending.map Token.kind ∈ Program.endings) :
    ∃ p, Program.Spelt (Token.all source) p ∧ (∀ q, Program.Spelt (Token.all source) q → q = p) ∧
      (∃ z, Expr.Worth .equality ts z) ∧
      ∀ z, Expr.Worth .equality ts z → ∀ (config : Config) (name : Text),
        p.stackNeed ≤ (Machine.new config.stackSize config.trace).capacity →
          ∃ n : Int64, (interpret config name source).outcome = .ok (.integer n) (Text.ofInt n.toInt) ∧
            -2 ^ 63 ≤ n.toInt ∧ n.toInt < 2 ^ 63 ∧ n.toInt ≡ z [ZMOD 2 ^ 64] := by
  obtain ⟨p, parsed, _⟩ := parse_of_compile compiled
  obtain ⟨spelt, valued, room⟩ := Program.parse_spelt parsed
  refine ⟨p, spelt, fun q other => other.eq_of_parse parsed, ?_, ?_⟩
  · have plain (t : Token) (member : t ∈ ts) : t.kind ≠ .semicolon := by
      intro same
      simpa [same, TokenKind.arithmetic] using made t member
    obtain ⟨e, single⟩ := (tokens ▸ spelt).single ends nonempty plain
    exact single.worth made
  · intro z worth config name fits
    -- The tree of the exact value is the one that was compiled, since there is no other.
    obtain ⟨e, single, value⟩ := worth.eval
    obtain ⟨q, same, evaluated, _⟩ := Program.parse_single tokens ends single valued room
    obtain rfl := Except.ok.inj (parsed.symm.trans same)
    obtain ⟨v, strings, outcome, denotes⟩ := interpret_of_eval parsed (evaluated.trans value) config name fits
    have congruent : (Int64.ofInt z).toInt ≡ z [ZMOD 2 ^ 64] := by
      rw [Int64.toInt_ofInt]
      exact Int.bmod_emod
    cases denotes with
    | integer n => exact ⟨_, outcome, Int64.le_toInt _, Int64.toInt_lt _, congruent⟩

/-- The least integer is its own negation. -/
theorem least_integer_negated :
    ∃ c, compile (utf8 "-(-9223372036854775807-1)") = .ok c ∧ ∀ (config : Config) (name : Text),
      2 ≤ (Machine.new config.stackSize config.trace).capacity →
        (interpret config name (utf8 "-(-9223372036854775807-1)")).outcome =
          .ok (.integer (-9223372036854775808)) (utf8 "-9223372036854775808") := by
  have tokens : Token.all (utf8 "-(-9223372036854775807-1)") =
      [⟨.minus, [0x2D], 1⟩, ⟨.leftParen, [0x28], 1⟩, ⟨.minus, [0x2D], 1⟩, ⟨.integer, utf8 "9223372036854775807", 1⟩,
        ⟨.minus, [0x2D], 1⟩, ⟨.integer, [0x31], 1⟩, ⟨.rightParen, [0x29], 1⟩] ++ [⟨.eof, [], 1⟩] := by cbv
  have parsed : Program.parse (utf8 "-(-9223372036854775807-1)") = .ok ⟨[
      ⟨.unary .negate 1 (.binary .subtract 1 (.unary .negate 1 (.literal (.integer 9223372036854775807) 1))
        (.literal (.integer 1) 1)), 1⟩], 1⟩ := by cbv
  have compiled : compile (utf8 "-(-9223372036854775807-1)") = .ok _ := congrArg (Except.map _) parsed
  obtain ⟨p, _, unique, _, wraps⟩ := integer_arithmetic_wraps_once compiled tokens (by simp) (by decide) (by decide)
  obtain rfl := unique _ (Program.parse_spelt parsed).1
  have negative : Expr.Worth .term [⟨.minus, [0x2D], 1⟩, ⟨.integer, utf8 "9223372036854775807", 1⟩]
      (-9223372036854775807) :=
    .tighter (.tighter (.negate rfl (.tighter (.literal rfl))))
  have one : Expr.Worth .factor [⟨.integer, [0x31], 1⟩] 1 := .tighter (.tighter (.literal rfl))
  have difference := @Expr.Worth.binary ⟨.minus, [0x2D], 1⟩ .subtract _ _ _ _ _ rfl rfl negative one
  have group := @Expr.Worth.group ⟨.leftParen, [0x28], 1⟩ ⟨.rightParen, [0x29], 1⟩ _ _ rfl rfl
    (.tighter (.tighter difference))
  have negated := @Expr.Worth.negate ⟨.minus, [0x2D], 1⟩ _ _ rfl (.tighter group)
  have worth : Expr.Worth .equality _ _ := .tighter (.tighter (.tighter (.tighter negated)))
  refine ⟨_, compiled, ?_⟩
  intro config name fits
  obtain ⟨n, outcome, above, below, congruent⟩ := wraps _ worth config name fits
  have least : n = -9223372036854775808 := by
    rw [← Int64.toInt_inj]
    rw [Int.ModEq] at congruent
    have value : (-9223372036854775808 : Int64).toInt = -9223372036854775808 := by decide
    omega
  have shown : Text.ofInt (-9223372036854775808 : Int64).toInt = utf8 "-9223372036854775808" := by cbv
  rw [outcome, least, shown]

end ExprLang
