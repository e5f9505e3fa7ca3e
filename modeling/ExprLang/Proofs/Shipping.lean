import ExprLang.Proofs.ChunkRoundTrip
import ExprLang.Proofs.Preservation

/-! Compiled programs written and read back. The chunk of a program is sound, and its strings are those between
the quotes of the source. So it is read back, with the same runs as before, exactly if these are well-formed and
the code is not too long. -/

namespace ExprLang

section Literals

/-- The literal that an instruction loads from the pool. -/
def Instr.literal? : Instr → Option Literal
  | op _ _ => none
  | load l _ => some l

theorem Literal.literal?_instr (l : Literal) (line : Nat) : (l.instr line).literal? = if l.isPooled then some l else none := by
  cases l <;> rfl

/-- The literals of the tokens that go to the pool. -/
def Token.literals (ts : List Token) : List Literal :=
  (ts.filter isPooled).map Literal.denoted

theorem Token.literals_append (ts us : List Token) : literals (ts ++ us) = literals ts ++ literals us := by
  simp [literals]

theorem Token.literals_plain {t : Token} (plain : t.isPooled = false) (ts : List Token) : literals (t :: ts) = literals ts := by
  simp [literals, plain]

theorem BinaryOp.opcodes_literals (op : BinaryOp) (line : Nat) :
    (op.opcodes.map (Instr.op · line)).filterMap Instr.literal? = [] := by
  cases op <;> rfl

/-- The code of an expression loads the literals of its tokens, in their order. -/
theorem Expr.Spelt.literals {layer : Layer} {ts : List Token} {e : Expr} (spelt : Expr.Spelt layer ts e)
    (more : List Instr) :
    (e.code more).filterMap Instr.literal? = Token.literals ts ++ more.filterMap Instr.literal? := by
  -- Parentheses and operators are never pooled, so that only the literals count.
  induction spelt generalizing more with
  | @literal t _ =>
    rw [Expr.code, List.filterMap_cons, Literal.literal?_instr, Literal.isPooled_denoted]
    cases pooled : t.isPooled with
    | true => simp [Token.literals, pooled]
    | false => simp [Token.literals, pooled]
  | @group opening closing ts e opens closes _ ih =>
    rw [ih, List.cons_append, Token.literals_plain (by simp [Token.isPooled, opens]), Token.literals_append,
      Token.literals_plain (by simp [Token.isPooled, closes])]
    simp [Token.literals]
  | @unary t op ts e sign _ ih =>
    have plain := Token.plain_of_unary (Lead.ofKind?_eq_unary_iff.mpr sign)
    rw [Expr.code, ih, Token.literals_plain plain]
    rfl
  | @binary t op ls rs l r sign _ _ left right =>
    have plain := Token.plain_of_binary (BinaryOp.ofKind?_eq_some_iff.mpr sign)
    rw [Expr.code, left, right, Token.literals_append, Token.literals_plain plain, List.filterMap_append,
      BinaryOp.opcodes_literals]
    simp
  | tighter _ ih => exact ih more

theorem Statement.Spelt.literals {ts : List Token} {ss : List Statement} (spelt : Statement.Spelt ts ss)
    {last : List Instr} (plain : last.filterMap Instr.literal? = []) :
    ((Program.codeOf? ss last).getD last).filterMap Instr.literal? = Token.literals ts := by
  induction spelt with
  | none => exact plain
  | last spelt =>
    rw [Program.codeOf?_cons, Option.getD_some, spelt.literals]
    simp [Program.codeOf?, plain]
  | @more ts rest t e others spelt sign _ ih =>
    rw [Program.codeOf?_cons, Option.getD_some, spelt.literals, Token.literals_append,
      Token.literals_plain (by simp [Token.isPooled, sign]), ← ih]
    cases Program.codeOf? others last <;> rfl

theorem Program.Spelt.literals {tokens : List Token} {p : Program} (spelt : Program.Spelt tokens p) :
    p.code.filterMap Instr.literal? = Token.literals tokens := by
  obtain ⟨ts, ending, rfl, ended, _, spelt⟩ := spelt
  have plain : [Instr.op .ret p.endLine].filterMap Instr.literal? = [] := rfl
  have before := spelt.literals plain
  have nothing : Token.literals [ending] = [] := Token.literals_plain (by simp [Token.isPooled, ended]) []
  rw [Token.literals_append, nothing, List.append_nil, ← before, Program.code]
  cases Program.codeOf? p.statements [.op .ret p.endLine] <;> rfl

theorem Literal.denoted_eq_string_iff (t : Token) (s : Text) : denoted t = .string s ↔ t.kind = .string ∧ t.quoted = s := by
  unfold denoted
  cases t.kind <;> simp

theorem Token.string_mem_literals_iff (ts : List Token) (s : Text) :
    .string s ∈ literals ts ↔ ∃ t ∈ ts, t.kind = .string ∧ t.quoted = s := by
  simp only [literals, List.mem_map, List.mem_filter, Literal.denoted_eq_string_iff]
  constructor
  · rintro ⟨t, ⟨member, _⟩, text⟩
    exact ⟨t, member, text⟩
  · rintro ⟨t, member, text⟩
    exact ⟨t, ⟨member, by simp [isPooled, text.1]⟩, text⟩

end Literals

section Chunks

theorem Value.Denotes.contains {strings : StringTable} {v : Value} {l : Literal} (denotes : v.Denotes strings l) :
    strings.contains v = true := by
  cases denotes with
  | string _ entry => simp [StringTable.contains, entry]
  | _ => rfl

namespace Chunk

theorem Extends.contains {c d : Chunk} (larger : c.Extends d) {v : Value} (known : c.strings.contains v = true) :
    d.strings.contains v = true := by
  cases v with
  | object word =>
    obtain ⟨s, entry⟩ := Option.isSome_iff_exists.mp known
    simp [StringTable.contains, larger.texts entry]
  | _ => rfl

theorem mem_strings_append (c : Chunk) (i : Instr) (s : Text) :
    s ∈ (c.append i).strings.entries.toList ↔ s ∈ c.strings.entries.toList ∨ i.literal? = some (.string s) := by
  cases i with
  | op op line => simp [Instr.literal?, append, put]
  | load l line =>
    cases l with
    | string u =>
      rw [Instr.literal?, Option.some_inj, Literal.string.injEq, @eq_comm _ u]
      exact c.strings.mem_intern u s
    | _ => exact (or_iff_left (by simp [Instr.literal?])).symm

theorem mem_strings_foldl (code : List Instr) (c : Chunk) (s : Text) :
    s ∈ (code.foldl append c).strings.entries.toList ↔
      s ∈ c.strings.entries.toList ∨ .string s ∈ code.filterMap Instr.literal? := by
  induction code generalizing c with
  | nil => simp
  | cons i more ih =>
    rw [List.foldl_cons, ih, mem_strings_append, or_assoc]
    simp only [List.mem_filterMap, List.mem_cons, exists_eq_or_imp]

/-- What every instruction of a program keeps true of its chunk. -/
structure Settled (c : Chunk) : Prop where
  tidy : c.Tidy
  fresh : c.Fresh
  resolved : ∀ v ∈ c.constants, c.strings.contains v = true

theorem append_settled {c : Chunk} (settled : c.Settled) (i : Instr) (room : i.isLoad = true → c.constants.size < poolLimit) :
    (c.append i).Settled := by
  have tidy := append_tidy settled.tidy i
  cases i with
  | op op line => exact ⟨tidy, ⟨rfl, settled.fresh.writable⟩, settled.resolved⟩
  | load l line =>
    have fresh : (c.append (.load l line)).Fresh := by
      cases l <;> exact ⟨rfl, settled.fresh.writable⟩
    refine ⟨tidy, fresh, ?_⟩
    -- The pool is full long before the references of strings run out.
    have few : c.strings.size < UInt32.size := Nat.lt_of_le_of_lt settled.tidy.texts (Nat.lt_trans (room rfl) (by decide))
    obtain ⟨v, d, same, ready⟩ := c.append_load l line
    rw [same]
    intro u member
    rcases Array.mem_push.mp (member : u ∈ d.constants.push v) with old | rfl
    · rw [ready.constants] at old
      exact ready.larger.contains (settled.resolved u old)
    · exact (ready.denotes few).contains

theorem foldl_settled (code : List Instr) {c : Chunk} (settled : c.Settled)
    (room : c.constants.size + code.countP Instr.isLoad ≤ poolLimit) :
    (code.foldl append c).Settled ∧ (code.foldl append c).constants.size ≤ poolLimit := by
  induction code generalizing c with
  | nil => exact ⟨settled, by simpa using room⟩
  | cons i more ih =>
    rw [List.countP_cons] at room
    apply ih
    · apply append_settled settled
      intro loads
      rw [if_pos loads] at room
      omega
    · rw [append_constants]
      omega

theorem ofCode_settled {code : List Instr} (room : code.countP Instr.isLoad ≤ poolLimit) :
    (ofCode code).Settled ∧ (ofCode code).constants.size ≤ poolLimit := by
  have empty : ({} : Chunk).Settled := ⟨⟨rfl, Nat.le_refl _⟩, ⟨rfl, rfl⟩, by simp⟩
  exact foldl_settled code empty (by simpa using room)

theorem Settled.portable_iff {c : Chunk} (settled : c.Settled) (pooled : c.constants.size ≤ poolLimit) :
    c.Portable ↔ c.code.size ≤ 131072 ∧ ∀ s ∈ c.strings.entries, s.isUtf8 = true := by
  have lined : c.code.size = c.lines.size := settled.tidy.lined.symm
  have few : c.constants.size ≤ Cbor.maxElements := Nat.le_trans pooled (by decide)
  constructor
  · rintro ⟨_, ⟨lines, _, _⟩, legible⟩
    exact ⟨lined ▸ lines, legible⟩
  · rintro ⟨short, legible⟩
    exact ⟨⟨lined, pooled, settled.resolved⟩, ⟨lined ▸ short, few, Nat.le_trans settled.tidy.texts few⟩, legible⟩

end Chunk

end Chunks

/-- The chunk of a program is settled, and its strings are those of the source. -/
theorem compiled_settled {source : Text} {c : Chunk} (compiled : compile source = .ok c) :
    c.Settled ∧ c.constants.size ≤ Chunk.poolLimit ∧
      ∀ s, s ∈ c.strings.entries ↔ ∃ t ∈ Token.all source, t.kind = .string ∧ t.quoted = s := by
  obtain ⟨p, parsed, rfl⟩ := parse_of_compile compiled
  obtain ⟨spelt, _, room⟩ := Program.parse_spelt parsed
  obtain ⟨settled, pooled⟩ := Chunk.ofCode_settled (Nat.le_trans spelt.loads_le room)
  refine ⟨settled, pooled, ?_⟩
  intro s
  have none : s ∉ ({} : Chunk).strings.entries.toList := List.not_mem_nil
  rw [Array.mem_def, Chunk.ofCode, Chunk.mem_strings_foldl, spelt.literals, Token.string_mem_literals_iff,
    or_iff_right none]

/-- A compiled program is read back exactly if its code is not too long for an array and the texts between its quotes
are well-formed. What is read back has the same fingerprint, and runs as the program itself does on every machine. -/
theorem compiled_ships_iff {source : Text} {c : Chunk} (compiled : compile source = .ok c) (addressable : c.encode.Addressable) :
    ((∃ d, Chunk.decode c.encode = .ok d) ↔
      c.code.size ≤ 131072 ∧ ∀ t ∈ Token.all source, t.kind = .string → ∃ text : String, utf8 text = t.quoted) ∧
      ∀ d, Chunk.decode c.encode = .ok d →
        d.fingerprint = c.fingerprint ∧ ∀ m : Machine, m.execute (some d) = m.execute (some c) := by
  obtain ⟨settled, pooled, strings⟩ := compiled_settled compiled
  have measured := Chunk.measured_of_addressable settled.fresh.tabled addressable
  have legible : (∀ s ∈ c.strings.entries, s.isUtf8 = true) ↔
      ∀ t ∈ Token.all source, t.kind = .string → ∃ text : String, utf8 text = t.quoted := by
    simp only [strings, ← Text.isUtf8_iff]
    constructor
    · intro legible t member kind
      exact legible t.quoted ⟨t, member, kind, rfl⟩
    · rintro legible _ ⟨t, member, kind, rfl⟩
      exact legible t member kind
  refine ⟨?_, ?_⟩
  · rw [Chunk.decode_encode_isOk_iff settled.fresh.tabled measured, settled.portable_iff pooled, legible]
  · intro d decoded
    obtain ⟨_, rfl⟩ := (Chunk.decode_encode_eq_ok_iff settled.fresh.tabled measured d).mp decoded
    rw [← settled.fresh.writable]
    exact ⟨rfl, fun _ => rfl⟩

theorem stray_byte_compiles_but_never_ships :
    ∃ c, compile [0x22, 0xFF, 0x22] = .ok c ∧ ∀ d, Chunk.decode c.encode ≠ .ok d := by
  have parsed : Program.parse [0x22, 0xFF, 0x22] = .ok ⟨[⟨.literal (.string [0xFF]) 1, 1⟩], 1⟩ := by cbv
  have compiled : compile [0x22, 0xFF, 0x22] = .ok (.ofCode [.load (.string [0xFF]) 1, .op .ret 1]) :=
    congrArg (Except.map _) parsed
  have addressable : (Chunk.ofCode [.load (.string [0xFF]) 1, .op .ret 1]).encode.Addressable := by
    unfold Text.Addressable
    decide +kernel
  have tokens : Token.all [0x22, 0xFF, 0x22] = [⟨.string, [0x22, 0xFF, 0x22], 1⟩, ⟨.eof, [], 1⟩] := by cbv
  refine ⟨_, compiled, ?_⟩
  intro d decoded
  obtain ⟨_, legible⟩ := (compiled_ships_iff compiled addressable).1.mp ⟨d, decoded⟩
  have proper := (Text.isUtf8_iff [0xFF]).mpr (legible ⟨.string, [0x22, 0xFF, 0x22], 1⟩ (by simp [tokens]) rfl)
  revert proper
  decide

end ExprLang
