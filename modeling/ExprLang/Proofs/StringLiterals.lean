import ExprLang.Proofs.Interpretation

/-! String literals. Whatever stands between two quotes, broken characters and line breaks included, is the value of the
literal, and literals are equal if and only if their texts are. -/

namespace ExprLang

def Text.inQuotes (s : Text) : Text :=
  0x22 :: (s ++ [0x22])

theorem Divided.string {gap s rest : Text} {more : List (TokenKind × Text)} (spacing : Spacing gap) (free : 0x22 ∉ s)
    (behind : Divided rest more) : Divided (gap ++ (s.inQuotes ++ rest)) ((.string, s.inQuotes) :: more) := by
  refine .token spacing (.string free) (Lexeme.string_longest free rest) ?_ behind
  intro slash
  cases (List.cons.inj slash).1

theorem Divided.equals {gap rest : Text} {more : List (TokenKind × Text)} (spacing : Spacing gap) (behind : Divided rest more) :
    Divided (gap ++ (utf8 "==" ++ rest)) ((.equalEqual, utf8 "==") :: more) := by
  have listed : (TokenKind.equalEqual, "==") ∈ TokenKind.operators := by decide
  refine .token spacing (.operator listed) (Lexeme.operator_longest listed rfl rest) ?_ behind
  intro slash
  cases (List.cons.inj slash).1

theorem Expr.spelt_string {t : Token} {s : Text} (face : t.face = (.string, s.inQuotes)) :
    Spelt .primary [t] (.literal (.string s) t.line) := by
  obtain ⟨kind, lexeme⟩ := Prod.mk.inj face
  have text : Literal.denoted t = .string s := by
    refine (Literal.denoted_eq_string_iff t s).mpr ⟨kind, ?_⟩
    simp [Token.quoted, lexeme, Text.inQuotes]
  rw [← text]
  exact .literal (by rw [kind]; decide)

theorem Literal.same_string (s t : Text) : (string s).same (string t) = decide (s = t) := by
  simp [same]

section
variable {s t : Text} (free : 0x22 ∉ s) (config : Config) (name : Text)
include free

theorem interpret_inQuotes : ∃ word, (interpret config name s.inQuotes).outcome = .ok (.object word) s := by
  have divided : Divided s.inQuotes [(.string, s.inQuotes)] := by
    simpa using Divided.string .nil free (.ending .nil)
  have reads (ts : List Token) (faces : ts.map Token.face = [(.string, s.inQuotes)]) :
      ∃ e, Expr.Spelt .equality ts e ∧ e.eval = .ok (.string s) ∧ max e.stackNeed 1 = 1 := by
    obtain ⟨a, rfl, face⟩ := List.map_eq_singleton_iff.mp faces
    exact ⟨_, (Expr.spelt_string face).loosen (by decide), rfl, rfl⟩
  have fits : 1 ≤ (Machine.new config.stackSize config.trace).capacity :=
    (Machine.le_new_capacity_iff (by decide) _ _).mpr (by omega)
  obtain ⟨v, strings, outcome, denotes⟩ := divided.interpret (by simp [Token.InRange]) (by simp [Chunk.poolLimit]) reads config name fits
  cases denotes with
  | string => exact ⟨_, outcome⟩

theorem interpret_equal_inQuotes (free' : 0x22 ∉ t) {gap gap' : Text} (spacing : Spacing gap) (spacing' : Spacing gap')
    (roomy : config.stackSize ≠ 1) :
    (interpret config name (s.inQuotes ++ gap ++ utf8 "==" ++ gap' ++ t.inQuotes)).outcome =
      .ok (.bool (s = t)) (if s = t then utf8 "true" else utf8 "false") := by
  have divided : Divided (s.inQuotes ++ gap ++ utf8 "==" ++ gap' ++ t.inQuotes)
      [(.string, s.inQuotes), (.equalEqual, utf8 "=="), (.string, t.inQuotes)] := by
    simpa using Divided.string .nil free (.equals spacing (.string spacing' free' (.ending .nil)))
  have reads (ts : List Token)
      (faces : ts.map Token.face = [(.string, s.inQuotes), (.equalEqual, utf8 "=="), (.string, t.inQuotes)]) :
      ∃ e, Expr.Spelt .equality ts e ∧ e.eval = .ok (.bool (s = t)) ∧ max e.stackNeed 1 = 2 := by
    simp only [List.map_eq_cons_iff, List.map_eq_nil_iff] at faces
    obtain ⟨a, _, rfl, left, sign, _, rfl, equals, b, _, rfl, right, rfl⟩ := faces
    have equal : sign.kind = BinaryOp.equal.sign := (Prod.mk.inj equals).1
    have first : Expr.Spelt .equality [a] _ := (Expr.spelt_string left).loosen (by decide)
    have second : Expr.Spelt .comparison [b] _ := (Expr.spelt_string right).loosen (by decide)
    refine ⟨_, .binary equal first second, ?_, rfl⟩
    simp only [Expr.eval, BinaryOp.apply, Literal.same_string, Except.mapError]
  have fits : 2 ≤ (Machine.new config.stackSize config.trace).capacity :=
    (Machine.le_new_capacity_iff (by decide) _ _).mpr (by omega)
  obtain ⟨v, strings, outcome, denotes⟩ := divided.interpret (by simp [Token.InRange]) (by simp [Chunk.poolLimit]) reads config name fits
  cases denotes with
  | bool => simpa [Literal.text] using outcome

end

/-- A string literal has the value that stands between its quotes, and two of them are equal if and only if these are. -/
theorem string_literals_verbatim {s t : Text} (free : 0x22 ∉ s) (free' : 0x22 ∉ t) (config : Config) (name : Text) :
    (∃ word, (interpret config name s.inQuotes).outcome = .ok (.object word) s) ∧
      ∀ gap gap', Spacing gap → Spacing gap' → config.stackSize ≠ 1 →
        (interpret config name (s.inQuotes ++ gap ++ utf8 "==" ++ gap' ++ t.inQuotes)).outcome =
          .ok (.bool (s = t)) (if s = t then utf8 "true" else utf8 "false") := by
  refine ⟨interpret_inQuotes free config name, ?_⟩
  intro gap gap' spacing spacing' roomy
  exact interpret_equal_inQuotes free config name free' spacing spacing' roomy

/-- A broken character, a line break, slashes, a backslash and a null byte. -/
theorem broken_text_kept :
    let s : Text := [0xE2, 0x82, 0x0A, 0x2F, 0x2F, 0x5C, 0x00, 0xFF]
    let t : Text := [0xE2, 0x82, 0x0A, 0x2F, 0x2F, 0x5C, 0x00, 0xFE]
    (∃ word, (interpret {} [] s.inQuotes).outcome = .ok (.object word) s) ∧
      (interpret {} [] (s.inQuotes ++ utf8 " " ++ utf8 "==" ++ utf8 " " ++ t.inQuotes)).outcome =
        .ok (.bool false) (utf8 "false") := by
  intro s t
  have free : 0x22 ∉ s := by decide
  have free' : 0x22 ∉ t := by decide
  have space : Spacing (utf8 " ") := .blank (by decide) .nil
  obtain ⟨kept, compared⟩ := string_literals_verbatim free free' {} []
  exact ⟨kept, compared _ _ space space (by decide)⟩

end ExprLang
