import ExprLang.Proofs.LineErasure
import ExprLang.Proofs.Shipping

/-! The layout of a source has no meaning. Two sources with the same tokens but for the lines of these give the same
program but for its lines, the same chunk but for its line table, and runs that end in the same way. -/

namespace ExprLang

def Instr.unlined : Instr → Instr
  | op o _ => op o 0
  | load l _ => load l 0

def RuntimeError.unlined (e : RuntimeError) : RuntimeError :=
  { e with line := 0 }

theorem Literal.instr_unlined (l : Literal) (line : Nat) : (l.instr line).unlined = l.instr 0 := by
  cases l <;> rfl

theorem Expr.code_unlined (e : Expr) (more : List Instr) :
    e.unlined.code (more.map Instr.unlined) = (e.code more).map Instr.unlined := by
  induction e generalizing more with
  | literal l line => rw [unlined, code, code, List.map_cons, Literal.instr_unlined]
  | unary op line operand ih =>
    rw [unlined, code, code, ← ih]
    rfl
  | binary op line left right ihl ihr =>
    rw [unlined, code, code, ← ihl, ← ihr, List.map_append, List.map_map]
    rfl

namespace Program

theorem codeOf?_unlined (statements : List Statement) (last : List Instr) :
    codeOf? (statements.map Statement.unlined) (last.map Instr.unlined) =
      (codeOf? statements last).map (List.map Instr.unlined) := by
  induction statements with
  | nil => rfl
  | cons s more ih =>
    rw [List.map_cons, codeOf?_cons, codeOf?_cons, ih, Option.map_some, ← Expr.code_unlined]
    cases codeOf? more last <;> rfl

theorem code_unlined (p : Program) : p.unlined.code = p.code.map Instr.unlined := by
  have statements := codeOf?_unlined p.statements [.op .ret p.endLine]
  simp only [List.map_cons, List.map_nil, Instr.unlined] at statements
  simp only [code, unlined, statements]
  cases codeOf? p.statements [.op .ret p.endLine] <;> rfl

/-- The result of parsing, without lines. -/
def bare (parsed : Except (List Diagnostic) Program) : Except (List Diagnostic) Program :=
  (parsed.map unlined).mapError (List.map Diagnostic.unlined)

theorem bare_parse (source : Text) :
    bare (parse source) =
      let tokens := (Token.all source).map Token.unlined
      let done := Parser.statements (Parser.fuelFor tokens) #[] (Parser.start tokens)
      if done.2.diagnostics = #[] then .ok ⟨done.1.toList, 0⟩ else .error done.2.diagnostics.toList := by
  have erased := Parser.statements_unlined (Parser.fuelFor (Token.all source)) #[] (Parser.start (Token.all source))
  rw [Array.map_empty, ← Parser.start_unlined] at erased
  simp only [Parser.fuelFor, List.length_map] at erased ⊢
  rw [erased, parse_eq, Parser.fuelFor]
  simp only [Parser.unlined, Array.map_eq_empty_iff, Array.toList_map]
  split <;> rfl

theorem parse_unlined {s t : Text} (same : (Token.all s).map Token.unlined = (Token.all t).map Token.unlined) :
    bare (parse s) = bare (parse t) := by
  rw [bare_parse, bare_parse, same]

end Program

namespace Chunk

/-- The chunk with line 0 for every byte. -/
def unlined (c : Chunk) : Chunk :=
  { c with lineTable := c.lineTable.map (Array.map fun _ => 0) }

theorem put_unlined (c : Chunk) (b : UInt8) (line : Int64) : (c.put b line).unlined = c.unlined.put b 0 := by
  obtain ⟨code, lineTable, constants, strings, frozen⟩ := c
  cases lineTable <;> simp [put, unlined]

theorem putLoad_unlined (c : Chunk) (v : Value) (line : Int64) : (c.putLoad v line).unlined = c.unlined.putLoad v 0 := by
  simp only [putLoad, putOperand, put_unlined]
  rfl

theorem append_unlined (c : Chunk) (i : Instr) : (c.append i).unlined = c.unlined.append i.unlined := by
  cases i with
  | op o line => exact put_unlined c o.byte _
  | load l line => cases l <;> exact putLoad_unlined ..

theorem foldl_unlined (code : List Instr) (c : Chunk) :
    (code.foldl append c).unlined = (code.map Instr.unlined).foldl append c.unlined := by
  induction code generalizing c with
  | nil => rfl
  | cons i more ih => rw [List.foldl_cons, List.map_cons, List.foldl_cons, ih, append_unlined]

theorem ofCode_unlined (code : List Instr) : (ofCode code).unlined = ofCode (code.map Instr.unlined) := by
  have empty : unlined {} = {} := by simp [unlined]
  rw [ofCode, foldl_unlined, empty, ofCode]

theorem lineOf_unlined (c : Chunk) (offset : Nat) : c.unlined.lineOf offset = 0 := by
  show (c.lineTable.map (Array.map fun _ => (0 : Int64)) |>.getD #[])[offset]?.getD 0 = 0
  cases c.lineTable with
  | none => rfl
  | some lines =>
    rw [Option.map_some, Option.getD_some, Array.getElem?_map]
    cases lines[offset]? <;> rfl

end Chunk

def Step.unlined : Step → Step
  | next ip stack => next ip stack
  | halt outcome stack => halt (outcome.mapError RuntimeError.unlined) stack

namespace Chunk

theorem failure_unlined (c : Chunk) (offset : Nat) (byte : UInt8) (fault : Fault) :
    c.unlined.failure offset byte fault = (c.failure offset byte fault).mapError RuntimeError.unlined := by
  simp only [failure, lineOf_unlined]
  rfl

theorem proceed_unlined (c : Chunk) (offset : Nat) (byte : UInt8) (ip : Nat) (e : Effect) :
    c.unlined.proceed offset byte ip e = (c.proceed offset byte ip e).unlined := by
  simp only [proceed, failure_unlined]
  split <;> rfl

theorem step_unlined (c : Chunk) (capacity ip : Nat) (stack : Stack) :
    c.unlined.step capacity ip stack = (c.step capacity ip stack).unlined := by
  have code : c.unlined.code = c.code := rfl
  have load : c.unlined.load capacity ip stack = c.load capacity ip stack := rfl
  simp only [step, code, load, proceed_unlined, failure_unlined]
  cases c.code[ip]? with
  | none => rfl
  | some byte =>
    cases decoded : Opcode.ofByte? byte with
    | none => simp only [decoded]; rfl
    | some op =>
      simp only [decoded]
      cases op with
      | ret => cases stack.back? <;> rfl
      | _ => rfl

theorem finish_unlined (c : Chunk) (capacity ip : Nat) (stack : Stack) :
    c.unlined.finish capacity ip stack.values =
      ((c.finish capacity ip stack.values).1.mapError RuntimeError.unlined, (c.finish capacity ip stack.values).2) := by
  induction remaining : c.code.size - ip using Nat.strongRecOn generalizing ip stack with
  | _ rest ih =>
    have stepped' := c.step_unlined capacity ip stack
    cases stepped : c.step capacity ip stack with
    | halt outcome stack' =>
      rw [stepped] at stepped'
      rw [finish_halt stepped, finish_halt stepped']
    | next ip' stack' =>
      rw [stepped] at stepped'
      have further := lt_of_step stepped
      rw [finish_next stepped, finish_next stepped']
      exact ih _ (by omega) ip' stack' rfl

end Chunk

/-- Two outcomes that are the same but for the line of the error. -/
inductive SameButLine : Except RuntimeError Value → Except RuntimeError Value → Prop
  | value (v : Value) : SameButLine (.ok v) (.ok v)
  | error (offset : Nat) (line line' : Int64) (byte : UInt8) (fault : Fault) :
      SameButLine (.error ⟨offset, line, byte, fault⟩) (.error ⟨offset, line', byte, fault⟩)

theorem SameButLine.of_unlined {first second : Except RuntimeError Value}
    (same : first.mapError RuntimeError.unlined = second.mapError RuntimeError.unlined) : SameButLine first second := by
  cases first with
  | ok v =>
    cases second with
    | ok w =>
      obtain rfl := Except.ok.inj same
      exact .value v
    | error f => cases same
  | error e =>
    cases second with
    | ok w => cases same
    | error f =>
      obtain ⟨offset, line, byte, fault⟩ := e
      obtain ⟨offset', line', byte', fault'⟩ := f
      obtain ⟨rfl, _, rfl, rfl⟩ := RuntimeError.mk.inj (Except.error.inj same)
      exact .error offset line line' byte fault

/-- Executions of two chunks that differ in their lines, whatever else is different about the machines. -/
theorem Machine.execute_unlined {m m' : Machine} (capacity : m.capacity = m'.capacity) {c d : Chunk}
    (lined : c.code.size = c.lines.size) (lined' : d.code.size = d.lines.size) (same : c.unlined = d.unlined) :
    SameButLine (m.execute (some c)).outcome (m'.execute (some d)).outcome := by
  have ends (m : Machine) {c : Chunk} (lined : c.code.size = c.lines.size) :
      (m.execute (some c)).outcome.mapError RuntimeError.unlined = (c.unlined.finish m.capacity 0 #[]).1 := by
    have ending := c.runFrom_ending m.capacity m.tracing #[] 0 m.stack.clear
    have erased := c.finish_unlined m.capacity 0 m.stack.clear
    rw [← ending, Stack.values_clear] at erased
    rw [m.execute_lined lined, erased]
    rfl
  apply SameButLine.of_unlined
  rw [ends m lined, ends m' lined', same, capacity]

theorem Token.map_unlined {ts us : List Token}
    (same : ts.map (fun t => (t.kind, t.lexeme)) = us.map fun t => (t.kind, t.lexeme)) :
    ts.map unlined = us.map unlined := by
  have erased := congrArg (List.map fun (k, lexeme) => Token.mk k lexeme 0) same
  rwa [List.map_map, List.map_map] at erased

/-- Sources whose tokens have the same kinds and lexemes are compiled to chunks that differ in their lines only and run
alike, or they are both refused for the same reasons at the same tokens. -/
theorem compile_ignores_layout {s t : Text}
    (same : (Token.all s).map (fun u => (u.kind, u.lexeme)) = (Token.all t).map fun u => (u.kind, u.lexeme)) :
    (∃ c d, compile s = .ok c ∧ compile t = .ok d ∧
      c.code = d.code ∧ c.constants = d.constants ∧ c.strings = d.strings ∧
      ∀ m m' : Machine, m.capacity = m'.capacity → SameButLine (m.execute (some c)).outcome (m'.execute (some d)).outcome) ∨
    ∃ ds es, compile s = .error ds ∧ compile t = .error es ∧
      ds.map (fun d => (d.site, d.message)) = es.map fun d => (d.site, d.message) := by
  have parsed := Program.parse_unlined (Token.map_unlined same)
  cases first : Program.parse s with
  | error ds =>
    cases second : Program.parse t with
    | ok q => simp [first, second, Program.bare, Except.map, Except.mapError] at parsed
    | error es =>
      rw [first, second] at parsed
      have reported : ds.map Diagnostic.unlined = es.map Diagnostic.unlined := Except.error.inj parsed
      refine .inr ⟨ds, es, by rw [compile, first]; rfl, by rw [compile, second]; rfl, ?_⟩
      have shown := congrArg (List.map fun d => (d.site, d.message)) reported
      rwa [List.map_map, List.map_map] at shown
  | ok p =>
    cases second : Program.parse t with
    | error es => simp [first, second, Program.bare, Except.map, Except.mapError] at parsed
    | ok q =>
      rw [first, second] at parsed
      have compiled : compile s = .ok (.ofCode p.code) := by rw [compile, first]; rfl
      have compiled' : compile t = .ok (.ofCode q.code) := by rw [compile, second]; rfl
      have erased : (Chunk.ofCode p.code).unlined = (Chunk.ofCode q.code).unlined := by
        rw [Chunk.ofCode_unlined, Chunk.ofCode_unlined, ← Program.code_unlined, ← Program.code_unlined, Except.ok.inj parsed]
      obtain ⟨code, _, constants, strings, _⟩ := Chunk.mk.inj erased
      refine .inl ⟨_, _, compiled, compiled', code, constants, strings, ?_⟩
      intro m m' capacity
      exact m.execute_unlined capacity (compiled_settled compiled).1.tidy.lined.symm
        (compiled_settled compiled').1.tidy.lined.symm erased

/-- A division by zero over two lines, with a comment, and the same on one line. -/
theorem split_division_fails_alike :
    let split := utf8 "8 /\n0 // none"
    let joined := utf8 "8/0"
    (Token.all split).map (fun u => (u.kind, u.lexeme)) = (Token.all joined).map (fun u => (u.kind, u.lexeme)) ∧
      ∃ c d, compile split = .ok c ∧ compile joined = .ok d ∧ c.code = d.code ∧ c.lines ≠ d.lines ∧
        SameButLine ((Machine.new 2 true).execute (some c)).outcome ((Machine.new 2 false).execute (some d)).outcome := by
  intro split joined
  have same : (Token.all split).map (fun u => (u.kind, u.lexeme)) = (Token.all joined).map fun u => (u.kind, u.lexeme) := by
    cbv
  have parsed : Program.parse split =
      .ok ⟨[⟨.binary .divide 1 (.literal (.integer 8) 1) (.literal (.integer 0) 2), 2⟩], 2⟩ := by cbv
  have parsed' : Program.parse joined =
      .ok ⟨[⟨.binary .divide 1 (.literal (.integer 8) 1) (.literal (.integer 0) 1), 1⟩], 1⟩ := by cbv
  refine ⟨same, ?_⟩
  rcases compile_ignores_layout same with ⟨c, d, compiled, compiled', code, _, _, alike⟩ | ⟨ds, _, failed, _⟩
  · refine ⟨c, d, compiled, compiled', code, ?_, alike _ _ rfl⟩
    rw [compile, parsed] at compiled
    rw [compile, parsed'] at compiled'
    obtain rfl := Except.ok.inj compiled
    obtain rfl := Except.ok.inj compiled'
    decide
  · rw [compile, parsed] at failed
    cases failed

end ExprLang
