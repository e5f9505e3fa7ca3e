import ExprLang.Proofs.IntegerArithmetic

/-! Integers as they are printed. Printing gives the digits of a number, with a sign in front of them if it is negative; read as a
program they are a literal, or the negation of one. So the number comes back, unless its digits alone are out of range. -/

namespace ExprLang

namespace Text

theorem isDigit_digit {n : Nat} (small : n < 10) : isDigit (digit n) = true := by
  revert n
  decide

theorem toNat_concat (t : Text) {n : Nat} (small : n < 10) : toNat (t ++ [digit n]) = 10 * toNat t + n := by
  have value : (digit n).toNat - 48 = n := by
    rw [digit, UInt8.toNat_ofNat']
    omega
  rw [toNat, List.foldl_append]
  exact congrArg (10 * toNat t + ·) value

theorem toNat_ofNat (n : Nat) : toNat (ofNat n) = n := by
  fun_induction ofNat n with
  | case1 n small => simpa [toNat] using toNat_concat [] small
  | case2 n large ih =>
    rw [toNat_concat _ (Nat.mod_lt n (by decide)), ih]
    exact Nat.div_add_mod n 10

theorem isNumeral_ofNat (n : Nat) : IsNumeral (ofNat n) := by
  fun_induction ofNat n with
  | case1 n small => exact ⟨by simp, by simp [isDigit_digit small]⟩
  | case2 n large ih =>
    refine ⟨by simp, ?_⟩
    intro b member
    rcases List.mem_append.mp member with member | member
    · exact ih.2 b member
    · rw [List.mem_singleton.mp member]
      exact isDigit_digit (Nat.mod_lt n (by decide))

end Text

theorem Divided.numeral {s : Text} (numeral : IsNumeral s) : Divided s [(.integer, s)] := by
  have lexeme : Lexeme .integer s := .integer numeral
  have apart : s = [0x2F] → ([] : Text).head? ≠ some 0x2F := by simp
  simpa using Divided.token .nil lexeme (lexeme.longest (by simp)) apart (.ending .nil)

theorem Divided.minus {rest : Text} {more : List (TokenKind × Text)} (behind : Divided rest more) :
    Divided (utf8 "-" ++ rest) ((.minus, utf8 "-") :: more) := by
  have listed : (TokenKind.minus, "-") ∈ TokenKind.operators := by decide
  have longest := Lexeme.single_longest listed (b := 0x2D) rfl rfl rest
  have apart : utf8 "-" = [0x2F] → rest.head? ≠ some 0x2F := fun same => absurd same (by decide)
  exact Divided.token .nil (.operator listed) longest apart behind

theorem Expr.spelt_numeral {t : Token} {s : Text} (face : t.face = (.integer, s)) :
    Spelt .primary [t] (.literal (.integer (Int64.ofInt s.toNat)) t.line) := by
  obtain ⟨kind, lexeme⟩ := Prod.mk.inj face
  rw [← lexeme, ← Literal.denoted_integer kind]
  exact .literal (by rw [kind]; decide)

/-- An expression of integers that needs one cell of the stack is answered on every machine. -/
theorem Divided.interpret_integer {source : Text} {faces : List (TokenKind × Text)} (divided : Divided source faces)
    (ranged : ∀ f ∈ faces, Token.InRange ⟨f.1, f.2, 0⟩) (few : faces.length < Chunk.poolLimit) {n : Int64}
    (reads : ∀ ts : List Token, ts.map Token.face = faces →
      ∃ e, Expr.Spelt .equality ts e ∧ e.eval = .ok (.integer n) ∧ max e.stackNeed 1 = 1)
    (config : Config) (name : Text) :
    (ExprLang.interpret config name source).outcome = .ok (.integer n) (Value.integer n).text := by
  have fits : 1 ≤ (Machine.new config.stackSize config.trace).capacity :=
    (Machine.le_new_capacity_iff (by decide) _ _).mpr (by omega)
  obtain ⟨v, strings, outcome, denotes⟩ := divided.interpret ranged few reads config name fits
  cases denotes with
  | integer => exact outcome

section
variable {k : Nat} (small : k ≤ 2 ^ 63 - 1) (config : Config) (name : Text)
include small

theorem interpret_digits :
    (interpret config name (Text.ofNat k)).outcome =
      .ok (.integer (Int64.ofInt k)) (Value.integer (Int64.ofInt k)).text := by
  have value := Text.toNat_ofNat k
  apply (Divided.numeral (Text.isNumeral_ofNat k)).interpret_integer
  · simpa [Token.InRange, value] using small
  · simp [Chunk.poolLimit]
  · intro ts faces
    obtain ⟨t, rfl, face⟩ := List.map_eq_singleton_iff.mp faces
    have spelt := Expr.spelt_numeral face
    rw [value] at spelt
    exact ⟨_, spelt.loosen (by decide), rfl, rfl⟩

theorem interpret_negated_digits :
    (interpret config name (utf8 "-" ++ Text.ofNat k)).outcome =
      .ok (.integer (Int64.ofInt (-k))) (Value.integer (Int64.ofInt (-k))).text := by
  have value := Text.toNat_ofNat k
  apply (Divided.numeral (Text.isNumeral_ofNat k)).minus.interpret_integer
  · simpa [Token.InRange, value] using small
  · simp [Chunk.poolLimit]
  · intro ts faces
    simp only [List.map_eq_cons_iff, List.map_eq_nil_iff] at faces
    obtain ⟨sign, _, rfl, minus, t, _, rfl, face, rfl⟩ := faces
    have negates : sign.kind = UnaryOp.negate.sign := (Prod.mk.inj minus).1
    have spelt := Expr.spelt_numeral face
    rw [value] at spelt
    have negated : Expr.Spelt .unary [sign, t] _ := .unary negates (spelt.loosen (by decide))
    refine ⟨_, negated.loosen (by decide), ?_, rfl⟩
    simp only [Expr.eval, UnaryOp.negate_exact, Except.mapError]

end

/-- The digits of an integer are in range, except for those of the least one. -/
theorem natAbs_le_of_ne_least {n : Int64} (other : n ≠ Int64.minValue) : n.toInt.natAbs ≤ 2 ^ 63 - 1 := by
  have above := n.le_toInt
  have below := n.toInt_lt
  have apart : n.toInt ≠ Int64.minValue.toInt := fun same => other (Int64.toInt_inj.mp same)
  have least : Int64.minValue.toInt = -2 ^ 63 := rfl
  omega

theorem interpret_text {n : Int64} (other : n ≠ Int64.minValue) (config : Config) (name : Text) :
    (interpret config name (Value.integer n).text).outcome = .ok (.integer n) (Value.integer n).text := by
  have small := natAbs_le_of_ne_least other
  by_cases negative : n.toInt < 0
  · have printed : (Value.integer n).text = utf8 "-" ++ Text.ofNat n.toInt.natAbs := if_pos negative
    have read := interpret_negated_digits small config name
    rwa [← printed, ← Int.eq_neg_natAbs_of_nonpos (Int.le_of_lt negative), Int64.ofInt_toInt] at read
  · have printed : (Value.integer n).text = Text.ofNat n.toInt.natAbs := if_neg negative
    have read := interpret_digits small config name
    rwa [← printed, Int.natAbs_of_nonneg (Int.not_lt.mp negative), Int64.ofInt_toInt] at read

/-- The digits of the least integer are those of a number that is out of range. -/
theorem compile_least :
    compile (Value.integer Int64.minValue).text =
      .error [⟨⟨.integer, utf8 "9223372036854775808", 1⟩, .integerOutOfRange⟩] := by
  have printed : (Value.integer Int64.minValue).text = utf8 "-9223372036854775808" := by cbv
  rw [printed]
  cbv

/-- The text of an integer is a program that gives the integer back with the same text. The least integer is the only exception:
its digits are out of range, which is all that is reported. -/
theorem printed_integers_read_back (n : Int64) (config : Config) (name : Text) :
    let outcome := (interpret config name (Value.integer n).text).outcome
    (n.toInt ≠ -2 ^ 63 → outcome = .ok (.integer n) (Value.integer n).text) ∧
      (n.toInt = -2 ^ 63 → ∃ d, outcome = .compileError [d] ∧ d.message = utf8 "Integer literal out of range." ∧
        d.site = utf8 " at '9223372036854775808'" ∧ d.token = ⟨.integer, utf8 "9223372036854775808", 1⟩) := by
  intro outcome
  have least : n.toInt = -2 ^ 63 ↔ n = Int64.minValue := by
    rw [← Int64.toInt_inj]
    rfl
  rw [ne_eq, least]
  refine ⟨fun other => interpret_text other config name, ?_⟩
  rintro rfl
  refine ⟨⟨⟨.integer, utf8 "9223372036854775808", 1⟩, .integerOutOfRange⟩, ?_, rfl, ?_, rfl⟩
  · simp only [outcome, interpret, compile_least]
  · decide

theorem integers_around_the_least :
    (interpret {} [] (utf8 "-9223372036854775807")).outcome =
        .ok (.integer (-9223372036854775807)) (utf8 "-9223372036854775807") ∧
      ∃ d, (interpret {} [] (utf8 "-9223372036854775808")).outcome = .compileError [d] ∧
        d.site = utf8 " at '9223372036854775808'" := by
  have above : (Value.integer (-9223372036854775807)).text = utf8 "-9223372036854775807" := by cbv
  have least : (Value.integer (-9223372036854775808)).text = utf8 "-9223372036854775808" := by cbv
  rw [← above, ← least]
  refine ⟨(printed_integers_read_back _ {} []).1 (by decide), ?_⟩
  obtain ⟨d, failed, _, site, _⟩ := (printed_integers_read_back (-9223372036854775808) {} []).2 (by decide)
  exact ⟨d, failed, site⟩

end ExprLang
