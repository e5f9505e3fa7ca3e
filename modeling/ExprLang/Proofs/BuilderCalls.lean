import ExprLang.Proofs.ChunkEdits
import ExprLang.Proofs.CodeLayout

/-! Building a chunk call by call. A call writes to several tables, one after the other, and it may fail on the way; what it
has written by then would stay. It fails before it writes anything, so that the tables of a chunk always agree with each other,
and as they only grow, an instruction is found where it was written for as long as the chunk is. -/

namespace ExprLang.Chunk

/-- A call on a chunk, statement by statement. What it has written before it fails stays written. -/
abbrev Call := ExceptT ChunkError (StateM Chunk)

namespace Call

/-- The answer of a call, and the chunk as it is afterwards. -/
def on {α : Type} (call : Call α) (c : Chunk) : Except ChunkError α × Chunk :=
  call.run.run c

def writable : Call Unit := do
  if (← get).frozen then throw .frozen

def byte (b : UInt8) (line : Int64) : Call Nat := do
  writable
  let offset := (← get).code.size
  modify fun c => { c with code := c.code.push b }
  modify fun c => { c with lineTable := some (c.lines.push line) }
  return offset

def operand (operand : UInt16) (line : Int64) : Call Nat := do
  writable
  modify fun c => { c with code := (c.code.push operand.toUInt8).push (operand >>> 8).toUInt8 }
  modify fun c => { c with lineTable := some ((c.lines.push line).push line) }
  return (← get).code.size

def constant (v : Value) : Call Nat := do
  writable
  modify fun c => { c with constants := c.constants.push v }
  return (← get).constants.size - 1

/-- Only the size of the pool is checked here. That the chunk is not frozen is left to the calls that write. -/
def load (v : Value) (line : Int64) : Call Nat := do
  if poolLimit ≤ (← get).constants.size then throw .tooManyConstants
  let index ← constant v
  let offset ← byte Opcode.constant.byte line
  let _ ← operand (UInt16.ofNat index) line
  return offset

section Running
variable {α β : Type} {c d : Chunk} {call : Call α}

theorem bind_ok {a : α} (answers : call.on c = (.ok a, d)) (next : α → Call β) : (call >>= next).on c = (next a).on d := by
  have run : StateT.run (ExceptT.run call) c = (.ok a, d) := answers
  simp only [on, ExceptT.run_bind, StateT.run_bind, run]
  rfl

theorem bind_error {e : ChunkError} (fails : call.on c = (.error e, d)) (next : α → Call β) :
    (call >>= next).on c = (.error e, d) := by
  have run : StateT.run (ExceptT.run call) c = (.error e, d) := fails
  simp only [on, ExceptT.run_bind, StateT.run_bind, run]
  rfl

end Running

/-- What comes of a call that writes as a whole or not at all. -/
def answer (c : Chunk) (attempt : Except ChunkError (Nat × Chunk)) : Except ChunkError Nat × Chunk :=
  (attempt.map Prod.fst, c.attempt attempt)

theorem byte_on (c : Chunk) (b : UInt8) (line : Int64) : (byte b line).on c = answer c (c.write b line) := by
  obtain ⟨code, lineTable, constants, strings, frozen⟩ := c
  cases frozen <;> rfl

theorem operand_on (c : Chunk) (w : UInt16) (line : Int64) : (operand w line).on c = answer c (c.writeOperand w line) := by
  obtain ⟨code, lineTable, constants, strings, frozen⟩ := c
  cases frozen
  · have size : ((code.push w.toUInt8).push (w >>> 8).toUInt8).size = code.size + 2 := by simp
    exact Prod.ext (congrArg Except.ok size) rfl
  · rfl

theorem constant_on (c : Chunk) (v : Value) : (constant v).on c = answer c (c.pool v) := by
  obtain ⟨code, lineTable, constants, strings, frozen⟩ := c
  cases frozen
  · have size : (constants.push v).size - 1 = constants.size := by simp
    exact Prod.ext (congrArg Except.ok size) rfl
  · rfl

/-- The three calls that write a load are as good as one: the first of them fails, or none does. -/
theorem load_on (c : Chunk) (v : Value) (line : Int64) : (load v line).on c = answer c (c.writeLoad v line) := by
  have looked : (get : Call Chunk).on c = (.ok c, c) := rfl
  rw [load, bind_ok looked]
  by_cases full : poolLimit ≤ c.constants.size
  · simp only [if_pos full, writeLoad]
    rfl
  · have first := constant_on c v
    simp only [if_neg full, writeLoad]
    by_cases frozen : c.frozen = true
    · rw [pool, if_pos frozen] at first
      rw [if_pos frozen]
      exact bind_error first _
    · have second := byte_on (c.putConstant v) Opcode.constant.byte line
      have third := operand_on ((c.putConstant v).put Opcode.constant.byte line) (UInt16.ofNat c.constants.size) line
      have writable : (c.putConstant v).frozen = c.frozen ∧ ((c.putConstant v).put Opcode.constant.byte line).frozen = c.frozen :=
        ⟨rfl, rfl⟩
      rw [pool, if_neg frozen] at first
      rw [write, writable.1, if_neg frozen] at second
      rw [writeOperand, writable.2, if_neg frozen] at third
      rw [if_neg frozen]
      exact (bind_ok first _).trans ((bind_ok second _).trans (bind_ok third _))

end Call

namespace Edit

def call : Edit → Call Unit
  | byte b line => do let _ ← Call.byte b line
  | operand w line => do let _ ← Call.operand w line
  | constant v => do let _ ← Call.constant v
  | load v line => do let _ ← Call.load v line
  | string s => modify fun c => (c.intern s).2
  | freeze => modify Chunk.freeze

/-- The edits that a frozen chunk refuses. -/
def appends : Edit → Bool
  | string _ | freeze => false
  | _ => true

variable {c : Chunk}

private theorem call_answer {call : Call Nat} {attempt : Except ChunkError (Nat × Chunk)}
    (answers : call.on c = Call.answer c attempt) :
    Call.on (do let _ ← call) c = (attempt.map fun _ => (), c.attempt attempt) := by
  cases attempt with
  | error e => exact Call.bind_error answers _
  | ok written => exact Call.bind_ok answers _

/-- What is attempted decides both what a call answers and what it leaves. -/
theorem call_attempts (c : Chunk) (e : Edit) :
    ∃ attempt : Except ChunkError (Nat × Chunk),
      e.call.on c = (attempt.map fun _ => (), c.attempt attempt) ∧ c.edit e = c.attempt attempt ∧
        (c.frozen = true → e.appends = true → ∃ err, attempt = .error err) := by
  cases e with
  | byte b line => exact ⟨_, call_answer (Call.byte_on c b line), rfl, fun frozen _ => ⟨_, if_pos frozen⟩⟩
  | operand w line => exact ⟨_, call_answer (Call.operand_on c w line), rfl, fun frozen _ => ⟨_, if_pos frozen⟩⟩
  | constant v => exact ⟨_, call_answer (Call.constant_on c v), rfl, fun frozen _ => ⟨_, if_pos frozen⟩⟩
  | load v line =>
    refine ⟨_, call_answer (Call.load_on c v line), rfl, ?_⟩
    intro frozen _
    -- A full pool is noticed first, so that the error may be another one here.
    rw [writeLoad, if_pos frozen]
    split
    · exact ⟨_, rfl⟩
    · exact ⟨_, rfl⟩
  | string s => exact ⟨.ok (0, (c.intern s).2), rfl, rfl, fun _ appends => absurd appends Bool.false_ne_true⟩
  | freeze => exact ⟨.ok (0, c.freeze), rfl, rfl, fun _ appends => absurd appends Bool.false_ne_true⟩

/-- A call leaves the chunk as the edit does. -/
theorem call_edit (e : Edit) : (e.call.on c).2 = c.edit e := by
  obtain ⟨attempt, answers, edited, _⟩ := call_attempts c e
  rw [answers, edited]

/-- A call that fails has written nothing. -/
theorem call_fails {e : Edit} {err : ChunkError} (fails : (e.call.on c).1 = .error err) : (e.call.on c).2 = c := by
  obtain ⟨attempt, answers, _⟩ := call_attempts c e
  rw [answers] at fails ⊢
  cases attempt with
  | error e => rfl
  | ok written => cases fails

theorem call_frozen (frozen : c.frozen = true) {e : Edit} (appends : e.appends = true) : ∃ err, (e.call.on c).1 = .error err := by
  obtain ⟨_, answers, _, refused⟩ := call_attempts c e
  obtain ⟨err, rfl⟩ := refused frozen appends
  exact ⟨err, congrArg Prod.fst answers⟩

end Edit

/-- The chunk after some calls, those that fail included. -/
def after (edits : List Edit) (c : Chunk) : Chunk :=
  edits.foldl (fun c e => (e.call.on c).2) c

theorem after_eq (edits : List Edit) (c : Chunk) : after edits c = edits.foldl edit c := by
  simp only [after, Edit.call_edit]

theorem extends_edit (c : Chunk) (e : Edit) : c.Extends (c.edit e) := by
  have edited := c.edited e
  generalize c.edit e = d at edited
  cases edited with
  | refused => exact .refl c
  | byte b line _ => exact c.extends_put b line
  | operand w line _ => exact (c.extends_put _ line).trans (extends_put _ _ line)
  | constant v _ => exact c.extends_putConstant v
  | load v line _ _ => exact c.extends_putLoad v line
  | string s => exact c.extends_intern s
  | freeze => exact ⟨id, id, id, id⟩

/-- Whatever is called, everything stays where it is. -/
theorem extends_after (edits : List Edit) (c : Chunk) : c.Extends (after edits c) := by
  rw [after_eq]
  induction edits generalizing c with
  | nil => exact .refl c
  | cons e edits ih => exact (c.extends_edit e).trans (ih (c.edit e))

theorem load_answer {c : Chunk} {v : Value} {line : Int64} {offset : Nat} (loads : ((Call.load v line).on c).1 = .ok offset) :
    c.constants.size < poolLimit ∧ offset = c.code.size ∧ ((Call.load v line).on c).2 = c.putLoad v line := by
  rw [Call.load_on, writeLoad] at loads ⊢
  split at loads
  · cases loads
  next room =>
    split at loads
    · cases loads
    next writable =>
      rw [if_neg room, if_neg writable]
      exact ⟨Nat.lt_of_not_le room, (Except.ok.inj loads).symm, rfl⟩

theorem load_fails_iff {c : Chunk} (writable : c.frozen = false) (v : Value) (line : Int64) :
    (∃ err, ((Call.load v line).on c).1 = .error err) ↔ poolLimit ≤ c.constants.size := by
  rw [Call.load_on, writeLoad, writable]
  split
  next full => exact iff_of_true ⟨_, rfl⟩ full
  next room =>
    refine iff_of_false ?_ room
    rintro ⟨err, fails⟩
    cases fails

theorem LoadsAt.lineOf {c : Chunk} {offset : Nat} {v : Value} {line : Int64} (loads : c.LoadsAt offset v line) :
    c.lineOf offset = line ∧ c.lineOf (offset + 1 : Nat) = line ∧ c.lineOf (offset + 2 : Nat) = line := by
  have known {n : Nat} (found : c.lines[n]? = some line) : c.lineOf (n : Nat) = line := by
    show c.lines[n]?.getD 0 = line
    rw [found]
    rfl
  exact ⟨known loads.lines.1, known loads.lines.2.1, known loads.lines.2.2⟩

/-- However a chunk is built, each byte has its line, and what was written as a load is found as one after any further calls. A
load fails only on a full pool as long as the chunk is not frozen. A call that fails leaves everything as it was, and on a
frozen chunk every call that appends fails. -/
theorem builder_keeps_tables (edits : List Edit) :
    let c := after edits {}
    c.code.size = c.lines.size ∧
      (∀ v line offset, ((Call.load v line).on c).1 = .ok offset → ∀ later,
        let d := after later ((Call.load v line).on c).2
        d.code[offset]? = some Opcode.constant.byte ∧
          (∃ index, d.operandAt? (offset + 1 : Nat) = some index ∧ d.constants[index.toNat]? = some v) ∧
          d.lineOf offset = line ∧ d.lineOf (offset + 1 : Nat) = line ∧ d.lineOf (offset + 2 : Nat) = line) ∧
      (c.frozen = false → ∀ v line, (∃ err, ((Call.load v line).on c).1 = .error err) ↔ 65536 ≤ c.constants.size) ∧
      (∀ (e : Edit) err, (e.call.on c).1 = .error err → (e.call.on c).2 = c) ∧
      (c.frozen = true → ∀ e : Edit, e.appends = true → ∃ err, (e.call.on c).1 = .error err) := by
  intro c
  have lined : c.Lined := by
    have built := build_lined edits
    rwa [build, ← after_eq] at built
  refine ⟨lined.lined, ?_, load_fails_iff, fun e err => Edit.call_fails, fun frozen e => Edit.call_frozen frozen⟩
  intro v line offset loads later d
  obtain ⟨room, rfl, written⟩ := load_answer loads
  have first := loadsAt_putLoad v line lined.lined.symm room
  rw [← written] at first
  have kept := (extends_after later _).loadsAt first
  exact ⟨kept.opcode, kept.operand, kept.lineOf⟩

/-- A load behind a constant and a byte that were written without it, before further calls, of which the last one fails. -/
theorem load_survives_freezing :
    let c := after [.constant .nil, .byte 0xFF (-1)] {}
    let d := after [.load .nil 4, .freeze, .byte 0x02 5] ((Call.load (.integer 7) (-3)).on c).2
    ((Call.load (.integer 7) (-3)).on c).1 = .ok 1 ∧ d.frozen = true ∧ d.code[1]? = some Opcode.constant.byte ∧
      (∃ index, d.operandAt? 2 = some index ∧ d.constants[index.toNat]? = some (.integer 7)) ∧ d.lineOf 3 = -3 := by
  intro c d
  have loads : ((Call.load (.integer 7) (-3)).on c).1 = .ok 1 := by decide +kernel
  obtain ⟨_, kept, _⟩ := builder_keeps_tables [.constant .nil, .byte 0xFF (-1)]
  obtain ⟨opcode, operand, _, _, line⟩ := kept _ _ _ loads [.load .nil 4, .freeze, .byte 0x02 5]
  exact ⟨loads, by decide +kernel, opcode, operand, line⟩

end ExprLang.Chunk
