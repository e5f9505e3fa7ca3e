import ExprLang.Proofs.ChunkRoundTrip

/-! Chunks that are built edit by edit. Whatever the edits are, every byte of code has its line, so that only the
sizes of the tables, the strings and the references decide whether the chunk can be read back. -/

namespace ExprLang

namespace Chunk

/-- One change to a chunk. An instruction without an operand is one byte. -/
inductive Edit where
  | byte (b : UInt8) (line : Int64)
  | operand (operand : UInt16) (line : Int64)
  | constant (v : Value)
  | load (v : Value) (line : Int64)
  | string (s : Text)
  | freeze
  deriving DecidableEq, Repr

/-- The chunk behind an attempt to write. One that is refused leaves the chunk as it was. -/
def attempt (c : Chunk) : Except ChunkError (Nat × Chunk) → Chunk
  | .ok (_, d) => d
  | .error _ => c

def edit (c : Chunk) : Edit → Chunk
  | .byte b line => c.attempt (c.write b line)
  | .operand operand line => c.attempt (c.writeOperand operand line)
  | .constant v => c.attempt (c.pool v)
  | .load v line => c.attempt (c.writeLoad v line)
  | .string s => (c.intern s).2
  | .freeze => c.freeze

def build (edits : List Edit) : Chunk :=
  edits.foldl edit {}

/-- What an edit makes of a chunk. It is refused as a whole, it appends something, or it freezes the chunk. -/
inductive Edited (c : Chunk) : Edit → Chunk → Prop
  | refused {e : Edit} : Edited c e c
  | byte (b : UInt8) (line : Int64) : c.frozen = false → Edited c (.byte b line) (c.put b line)
  | operand (operand : UInt16) (line : Int64) : c.frozen = false → Edited c (.operand operand line) (c.putOperand operand line)
  | constant (v : Value) : c.frozen = false → Edited c (.constant v) (c.putConstant v)
  | load (v : Value) (line : Int64) :
      c.frozen = false → c.constants.size < poolLimit → Edited c (.load v line) (c.putLoad v line)
  | string (s : Text) : Edited c (.string s) (c.intern s).2
  | freeze : Edited c .freeze c.freeze

theorem edited (c : Chunk) (e : Edit) : c.Edited e (c.edit e) := by
  cases e with
  | byte b line =>
    simp only [edit, write]
    split
    · exact .refused
    next writable => exact .byte b line (by simpa using writable)
  | operand operand line =>
    simp only [edit, writeOperand]
    split
    · exact .refused
    next writable => exact .operand operand line (by simpa using writable)
  | constant v =>
    simp only [edit, pool]
    split
    · exact .refused
    next writable => exact .constant v (by simpa using writable)
  | load v line =>
    simp only [edit, writeLoad]
    split
    · exact .refused
    next room =>
      split
      · exact .refused
      next writable => exact .load v line (by simpa using writable) (Nat.lt_of_not_le room)
  | string s => exact .string s
  | freeze => exact .freeze

/-- There is a line table, with one line for every byte of code. -/
structure Lined (c : Chunk) : Prop where
  tabled : c.lineTable = some c.lines
  lined : c.code.size = c.lines.size

namespace Lined

theorem empty : ({} : Chunk).Lined :=
  ⟨rfl, rfl⟩

variable {c : Chunk} (lined : c.Lined)
include lined

theorem put (b : UInt8) (line : Int64) : (c.put b line).Lined := by
  refine ⟨rfl, ?_⟩
  have code : (c.put b line).code.size = c.code.size + 1 := Array.size_push _
  have lines : (c.put b line).lines.size = c.lines.size + 1 := Array.size_push _
  rw [code, lines, lined.lined]

theorem putOperand (operand : UInt16) (line : Int64) : (c.putOperand operand line).Lined :=
  (lined.put _ line).put _ line

theorem putConstant (v : Value) : (c.putConstant v).Lined :=
  ⟨lined.tabled, lined.lined⟩

theorem putLoad (v : Value) (line : Int64) : (c.putLoad v line).Lined :=
  ((lined.putConstant v).put _ line).putOperand _ line

theorem intern (s : Text) : (c.intern s).2.Lined :=
  ⟨lined.tabled, lined.lined⟩

theorem edit (e : Edit) : (c.edit e).Lined := by
  have edited := c.edited e
  generalize c.edit e = d at edited
  cases edited with
  | refused => exact lined
  | byte b line _ => exact lined.put b line
  | operand operand line _ => exact lined.putOperand operand line
  | constant v _ => exact lined.putConstant v
  | load v line _ _ => exact lined.putLoad v line
  | string s => exact lined.intern s
  | freeze => exact ⟨lined.tabled, lined.lined⟩

theorem edits (edits : List Edit) : (edits.foldl Chunk.edit c).Lined := by
  induction edits generalizing c with
  | nil => exact lined
  | cons e edits ih => exact ih (lined.edit e)

end Lined

theorem build_lined (edits : List Edit) : (build edits).Lined :=
  Lined.empty.edits edits

theorem Lined.portable_iff {c : Chunk} (lined : c.Lined) :
    c.Portable ↔ c.lines.size ≤ 131072 ∧ c.constants.size ≤ 65536 ∧ c.strings.size ≤ 131072 ∧
      (∀ s ∈ c.strings.entries, ∃ text : String, utf8 text = s) ∧
      ∀ w, .object w ∈ c.constants → w.toUInt32.toNat < c.strings.size := by
  have legible (s : Text) : (∃ text : String, utf8 text = s) ↔ s.isUtf8 = true := (Text.isUtf8_iff s).symm
  simp only [legible]
  constructor
  · rintro ⟨⟨_, pooled, resolved⟩, ⟨lines, _, strings⟩, legible⟩
    refine ⟨lines, pooled, strings, legible, ?_⟩
    intro w member
    exact (c.strings.contains_eq_true_iff _).mp (resolved _ member) w rfl
  · rintro ⟨lines, pooled, strings, legible, resolved⟩
    refine ⟨⟨lined.lined, pooled, ?_⟩, ⟨lines, Nat.le_trans pooled (by decide), strings⟩, legible⟩
    intro v member
    apply (c.strings.contains_eq_true_iff v).mpr
    rintro w rfl
    exact resolved w member

/-- A chunk that was built by edits is read back exactly if its tables are small enough, its strings are well-formed
and its references have entries. Everything but the mark of a frozen chunk comes back. -/
theorem decode_encode_build (edits : List Edit) {c : Chunk} (built : build edits = c) (addressable : c.encode.Addressable) :
    ((∃ d, decode c.encode = .ok d) ↔
      c.lines.size ≤ 131072 ∧ c.constants.size ≤ 65536 ∧ c.strings.size ≤ 131072 ∧
        (∀ s ∈ c.strings.entries, ∃ text : String, utf8 text = s) ∧
        ∀ w, .object w ∈ c.constants → w.toUInt32.toNat < c.strings.size) ∧
      ∀ d, decode c.encode = .ok d →
        d.code = c.code ∧ d.lines = c.lines ∧ d.constants = c.constants ∧ d.strings = c.strings ∧ d.frozen = false ∧
          d.encode = c.encode := by
  have lined : c.Lined := built ▸ build_lined edits
  have measured := measured_of_addressable lined.tabled addressable
  refine ⟨(decode_encode_isOk_iff lined.tabled measured).trans lined.portable_iff, ?_⟩
  intro d decoded
  obtain ⟨_, rfl⟩ := (decode_encode_eq_ok_iff lined.tabled measured d).mp decoded
  exact ⟨rfl, rfl, rfl, rfl, rfl, rfl⟩

/-- A frozen chunk with a NaN, a line below zero and a string beyond ASCII. -/
def frozenSample : Chunk where
  code := #[0x01, 0x00, 0x00, 0x02]
  lineTable := some #[-3, -3, -3, 0]
  constants := #[.double 0x7FF8000000000001, .object 0]
  strings := ⟨#[utf8 "é"], by decide⟩
  frozen := true

theorem frozenSample_comes_back :
    build [.load (.double 0x7FF8000000000001) (-3), .string (utf8 "é"), .constant (.object 0), .byte 0x02 0, .freeze] =
        frozenSample ∧
      ∃ d, decode frozenSample.encode = .ok d ∧ d.lines = #[-3, -3, -3, 0] ∧
        d.constants = #[.double 0x7FF8000000000001, .object 0] ∧ d.frozen = false := by
  have built : build [.load (.double 0x7FF8000000000001) (-3), .string (utf8 "é"), .constant (.object 0), .byte 0x02 0, .freeze] =
    frozenSample := by decide +kernel
  have addressable : frozenSample.encode.Addressable := by
    unfold Text.Addressable
    decide
  obtain ⟨accepted, same⟩ := decode_encode_build _ built addressable
  obtain ⟨d, decoded⟩ := accepted.mpr (by simp [frozenSample, lines, StringTable.size])
  obtain ⟨_, lines, constants, _, writable, _⟩ := same d decoded
  exact ⟨built, d, decoded, lines, constants, writable⟩

end Chunk

end ExprLang
