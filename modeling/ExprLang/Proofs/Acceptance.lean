import ExprLang.Program.Code
import ExprLang.Proofs.DoubleRange
import ExprLang.Proofs.GrammarComplete

/-! Which programs compile: those of the grammar whose numbers are in range and whose constants fit into
the pool. Whatever is wrong with another program, some diagnostic says so. -/

namespace ExprLang
open Token (Closed)

/-- Integers have 63 bits, and doubles must not round to infinity. -/
def Token.InRange (t : Token) : Prop :=
  (t.kind = .integer → t.lexeme.toNat ≤ 2 ^ 63 - 1) ∧
  (t.kind = .double → t.lexeme.decimal.1 < Binary64.overflow * t.lexeme.decimal.2)

theorem Token.valued_iff (t : Token) : t.Valued ↔ t.InRange := by
  unfold Valued InRange Literal.ofToken
  cases kind : t.kind with
  | integer =>
    simp only [reduceCtorEq, false_implies, and_true, true_implies]
    split
    next small => simpa using Nat.le_sub_one_of_lt small
    next large => simpa using Nat.lt_of_succ_le (Nat.le_of_not_lt large)
  | double =>
    have proper : t.lexeme.decimal.2 ≠ 0 := by simp [Text.decimal]
    simp only [reduceCtorEq, false_implies, true_and, true_implies]
    rw [← Binary64.ofRatio?_isSome_iff proper]
    split
    next word found => exact iff_of_true ⟨_, rfl⟩ (Option.isSome_iff_exists.mpr ⟨word, found⟩)
    next beyond => exact iff_of_false (by simp) (Option.not_isSome_iff_eq_none.mpr beyond)
  | _ => simp

namespace Program

theorem parse_eq (source : Text) :
    parse source =
      let done := Parser.statements (Parser.fuelFor (Token.all source)) #[] (Parser.start (Token.all source))
      if done.2.diagnostics = #[] then .ok ⟨done.1.toList, done.2.previous.line⟩ else .error done.2.diagnostics.toList := by
  simp [parse]

theorem Spelt.kind_ne {tokens : List Token} {p : Program} (spelt : Spelt tokens p) : ∀ t ∈ tokens, t.kind ≠ .error := by
  obtain ⟨ts, ending, rfl, ended, _, spelt⟩ := spelt
  intro t member
  rcases List.mem_append.mp member with member | member
  · exact spelt.kind_ne t member
  · simp [List.mem_singleton.mp member, ended]

theorem parse_spelt {source : Text} {p : Program} (parsed : parse source = .ok p) :
    Spelt (Token.all source) p ∧ (∀ t ∈ Token.all source, t.Valued) ∧
      (Token.all source).countP Token.isPooled ≤ Chunk.poolLimit := by
  have closed := Token.closed_all source
  rw [parse_eq] at parsed
  simp only at parsed
  split at parsed
  next clean =>
    obtain rfl := Except.ok.inj parsed
    rcases Parser.start_cases closed with ⟨t, rest, same, valid, ready⟩ | ⟨e, errors, t, rest, same, lexical, valid, panics⟩
    · have here : (Parser.start (Token.all source)).upcoming = Token.all source := by rw [ready, same]; rfl
      have enough : (Parser.start (Token.all source)).rest.length + 1 < Parser.fuelFor (Token.all source) := by
        rw [ready, same, Parser.fuelFor]
        simp
      obtain ⟨ts, ss, q, spelt, passed, moves, last, ended, final⟩ :=
        Parser.statements_sound _ #[] _ (here.symm ▸ closed) enough (by rw [ready]) clean
      have tokens : Token.all source = ts ++ [q.current] := by rw [← here, passed.tokens, last]
      have room := moves.pooled_le (by rw [ready]; exact Nat.zero_le _)
      have plain : q.current.isPooled = false := by simp [Token.isPooled, ended]
      rw [final, tokens]
      refine ⟨⟨ts, q.current, rfl, ended, rfl, by simpa using spelt⟩, ?_, ?_⟩
      · intro t member
        rcases List.mem_append.mp member with member | member
        · exact passed.valued t member
        · rw [List.mem_singleton.mp member]
          exact Token.valued_of_plain plain
      · rw [passed.pooled, ready, Nat.zero_add] at room
        simpa [plain] using room
    · have kept := Parser.statements_keep (Parser.fuelFor (Token.all source)) #[] (Parser.start (Token.all source))
      rw [clean, panics] at kept
      simp at kept
  · simp at parsed

theorem parse_of_spelt {source : Text} {p : Program} (spelt : Spelt (Token.all source) p)
    (valued : ∀ t ∈ Token.all source, t.Valued) (room : (Token.all source).countP Token.isPooled ≤ Chunk.poolLimit) :
    parse source = .ok p := by
  have valid := spelt.kind_ne
  obtain ⟨ts, ending, tokens, ended, line, spelt⟩ := spelt
  rcases Parser.start_cases (Token.closed_all source) with
    ⟨t, rest, same, _, ready⟩ | ⟨e, errors, t, rest, same, lexical, _⟩
  · have here : (Parser.start (Token.all source)).upcoming = Token.all source := by rw [ready, same]; rfl
    have offers : Parser.Offers (Parser.start (Token.all source)) ts ending (Token.all source).length.succ.succ.succ := by
      refine ⟨⟨[], here.trans tokens⟩, tokens ▸ valid, fun t member => valued t (by simp [tokens, member]), ?_, ?_⟩
      · rw [ready, Nat.zero_add]
        rw [tokens, List.countP_append] at room
        omega
      · rw [ready, same]
        simp only [List.length_cons]
        omega
    obtain ⟨q, passed, final⟩ := Parser.statements_find spelt ended offers (here.trans tokens) (by rw [ready]) #[]
    have clean : q.diagnostics = #[] := by rw [passed.diagnostics, ready]
    rw [parse_eq, Parser.fuelFor, final]
    simp [clean, line]
  · exact absurd (lexical e (by simp)) (valid e (by rw [same]; simp))

/-- The tree that is found is the only one. -/
theorem Spelt.eq_of_parse {source : Text} {p q : Program} (spelt : Spelt (Token.all source) q) (parsed : parse source = .ok p) :
    q = p := by
  obtain ⟨_, valued, room⟩ := parse_spelt parsed
  exact Except.ok.inj ((parse_of_spelt spelt valued room).symm.trans parsed)

theorem diagnostics_ne_nil {source : Text} {ds : List Diagnostic} (failed : parse source = .error ds) : ds ≠ [] := by
  rw [parse_eq] at failed
  simp only at failed
  split at failed
  · simp at failed
  next unclean =>
    obtain rfl := Except.error.inj failed
    simpa using unclean

end Program

theorem parse_of_compile {source : Text} {c : Chunk} (compiled : compile source = .ok c) :
    ∃ p, Program.parse source = .ok p ∧ Chunk.ofCode p.code = c := by
  unfold compile at compiled
  cases parsed : Program.parse source with
  | error ds => simp [parsed, Except.map] at compiled
  | ok p => exact ⟨p, rfl, by simpa [parsed, Except.map] using compiled⟩

/-- What a failed compilation returns is what the parser has reported. -/
theorem diagnostics_of_compile {source : Text} {ds : List Diagnostic} (failed : compile source = .error ds) :
    let done := Parser.statements (Parser.fuelFor (Token.all source)) #[] (Parser.start (Token.all source))
    done.2.diagnostics.toList = ds ∧ done.2.diagnostics ≠ #[] := by
  rw [compile, Program.parse_eq] at failed
  simp only at failed
  split at failed
  · cases failed
  next unclean => exact ⟨Except.error.inj failed, unclean⟩

/-- What a program must satisfy to be compiled. -/
structure Grammatical (source : Text) : Prop where
  scanned : ∀ t ∈ Token.all source, t.kind ≠ .error
  spelt : ∃ p, Program.Spelt (Token.all source) p
  inRange : ∀ t ∈ Token.all source, t.InRange
  pooled : (Token.all source).countP Token.isPooled ≤ 65536

theorem Program.parse_ok_iff (source : Text) : (∃ p, parse source = .ok p) ↔ Grammatical source := by
  constructor
  · rintro ⟨p, parsed⟩
    obtain ⟨spelt, valued, room⟩ := parse_spelt parsed
    exact ⟨spelt.kind_ne, ⟨p, spelt⟩, fun t member => t.valued_iff.mp (valued t member), room⟩
  · rintro ⟨_, ⟨p, spelt⟩, inRange, room⟩
    exact ⟨p, parse_of_spelt spelt (fun t member => t.valued_iff.mpr (inRange t member)) room⟩

/-- The compiler accepts the programs of the grammar, and every other program gets a diagnostic. -/
theorem compile_accepts_iff (source : Text) :
    ((∃ c, compile source = .ok c) ↔ Grammatical source) ∧
    ((∃ ds, compile source = .error ds ∧ ds ≠ []) ↔ ¬ Grammatical source) := by
  rw [← Program.parse_ok_iff]
  unfold compile
  cases parsed : Program.parse source with
  | ok p => simp [Except.map]
  | error ds => simpa [Except.map] using Program.diagnostics_ne_nil parsed

end ExprLang
