import Mathlib
import ExprLang.Chunk.Record
import ExprLang.Proofs.Interning

/-! What the checks of a decoded record let through. A record passes exactly if it is the record of a chunk
whose parts agree with each other, and that chunk is the result. -/

namespace ExprLang

namespace ValueKind

theorem ofCode?_code (k : ValueKind) : ofCode? k.code = some k := by
  cases k <;> rfl

theorem code_of_ofCode? {n : Nat} {k : ValueKind} (found : ofCode? n = some k) : k.code = n := by
  match n with
  | 0 | 1 | 2 | 3 | 4 => obtain rfl := Option.some.inj found; rfl
  | n + 5 => simp [ofCode?, named] at found

end ValueKind

/-- What is written of a constant: the code of its kind, and its payload. -/
def Value.entry (v : Value) : Nat × UInt64 :=
  (v.kind.code, v.word)

namespace ChunkRecord

/-- The strings of a record go through if they make up a table together with those before them. -/
theorem tableInto_eq_ok_iff (table : StringTable) (strings : List Text) (result : StringTable) :
    tableInto table strings = .ok result ↔ result.entries.toList = table.entries.toList ++ strings := by
  induction strings generalizing table with
  | nil =>
    simp only [tableInto, Except.ok.injEq, List.append_nil]
    exact ⟨fun same => same ▸ rfl, fun same => StringTable.ext same.symm⟩
  | cons s strings ih =>
    rw [tableInto]
    by_cases known : s ∈ table.entries.toList
    · obtain ⟨below, _⟩ := StringTable.intern_known known
      simp only [if_neg (Nat.ne_of_lt below), reduceCtorEq, false_iff]
      intro same
      have distinct := result.distinct
      rw [same, List.nodup_append] at distinct
      exact distinct.2.2 s known s (by simp) rfl
    · obtain ⟨last, longer⟩ := StringTable.intern_fresh known
      simp only [last, if_true, ih, longer, List.append_assoc, List.singleton_append]

/-- A constant goes through if there is a value of its kind with its payload, and the value resolves. -/
theorem value_eq_ok_iff (strings : StringTable) (index kind : Nat) (word : UInt64) (v : Value) :
    value strings index kind word = .ok v ↔ v.entry = (kind, word) ∧ strings.contains v = true := by
  constructor
  · intro found
    have settled {u : Value} (result : Except.ok u = (Except.ok v : Except DecodeError Value))
        (known : ValueKind.ofCode? kind = some u.kind) (payload : word = u.word) (resolved : strings.contains u = true) :
        v.entry = (kind, word) ∧ strings.contains v = true := by
      obtain rfl := Except.ok.inj result
      exact ⟨by rw [Value.entry, ValueKind.code_of_ofCode? known, payload], resolved⟩
    unfold value at found
    split at found
    · simp at found
    next known =>
      split at found
      next zero => exact settled found known zero rfl
      · simp at found
    next known =>
      split at found
      next zero => exact settled found known zero rfl
      · split at found
        next one => exact settled found known one rfl
        · simp at found
    next known => exact settled found known (UInt64.toUInt64_toInt64 word).symm rfl
    next known => exact settled found known rfl rfl
    next known =>
      split at found
      next present => exact settled found known rfl present
      · simp at found
  · rintro ⟨same, resolved⟩
    obtain ⟨rfl, rfl⟩ := Prod.mk.inj same
    unfold value
    rw [ValueKind.ofCode?_code]
    cases v with
    | nil => rfl
    | bool b => cases b <;> rfl
    | integer n => simp [Value.kind, Value.word]
    | double word => rfl
    | object word => exact if_pos resolved

theorem valuesInto_eq_ok_iff (strings : StringTable) (read : Array Value) (entries : List (Nat × UInt64)) (result : Array Value) :
    valuesInto strings read entries = .ok result ↔
      ∃ added : List Value, result.toList = read.toList ++ added ∧ added.map Value.entry = entries ∧
        ∀ v ∈ added, strings.contains v = true := by
  induction entries generalizing read with
  | nil =>
    simp only [valuesInto, Except.ok.injEq, List.map_eq_nil_iff]
    constructor
    · rintro rfl
      exact ⟨[], by simp⟩
    · rintro ⟨_, same, rfl, _⟩
      exact Array.toList_inj.mp (by simpa using same.symm)
  | cons entry entries ih =>
    obtain ⟨kind, word⟩ := entry
    rw [valuesInto]
    constructor
    · intro found
      split at found
      · simp at found
      next v first =>
        obtain ⟨same, resolved⟩ := (value_eq_ok_iff ..).mp first
        obtain ⟨added, whole, rfl, others⟩ := (ih _).mp found
        refine ⟨v :: added, by simpa using whole, by simp [same], ?_⟩
        simpa [resolved] using others
    · rintro ⟨added, whole, same, resolved⟩
      cases added with
      | nil => simp at same
      | cons v added =>
        obtain ⟨first, others⟩ := List.cons.inj same
        rw [(value_eq_ok_iff ..).mpr ⟨first, resolved v (by simp)⟩]
        exact (ih _).mpr ⟨added, by simpa using whole, others, fun u member => resolved u (by simp [member])⟩

end ChunkRecord

namespace Chunk

/-- What is written of a chunk. -/
def record (c : Chunk) : ChunkRecord where
  version := ChunkRecord.currentVersion
  code := c.code.toList
  lines := c.lines.toList
  constants := c.constants.toList.map Value.entry
  strings := c.strings.entries.toList

/-- The parts of a chunk agree with each other. -/
structure Sound (c : Chunk) : Prop where
  lined : c.code.size = c.lines.size
  pooled : c.constants.size ≤ poolLimit
  resolved : ∀ v ∈ c.constants, c.strings.contains v = true

/-- A chunk as it comes out of the checks: it has a line table, and it is not frozen. -/
structure Fresh (c : Chunk) : Prop where
  tabled : c.lineTable = some c.lines
  writable : c.frozen = false

theorem Fresh.ext {c d : Chunk} (first : c.Fresh) (second : d.Fresh) (code : c.code = d.code) (lines : c.lines = d.lines)
    (constants : c.constants = d.constants) (strings : c.strings = d.strings) : c = d := by
  have tables : c.lineTable = d.lineTable := by rw [first.tabled, second.tabled, lines]
  have flags : c.frozen = d.frozen := by rw [first.writable, second.writable]
  cases c
  cases d
  simp only at code tables constants strings flags
  rw [code, tables, constants, strings, flags]

end Chunk

namespace ChunkRecord

private theorem toChunk_eq (w : ChunkRecord) :
    w.toChunk =
      if w.version ≠ currentVersion then .error (.version w.version)
      else if w.code.length ≠ w.lines.length then .error (.lineCount w.code.length w.lines.length)
      else if Chunk.poolLimit < w.constants.length then .error (.constantCount w.constants.length)
      else (tableInto {} w.strings).bind fun strings => (valuesInto strings #[] w.constants).map fun constants =>
        { code := w.code.toArray, lineTable := some w.lines.toArray, constants, strings } := by
  unfold toChunk
  split
  · rfl
  · split
    · rfl
    · split <;> rfl

private theorem toChunk_parts (w : ChunkRecord) (c : Chunk) :
    w.toChunk = .ok c ↔
      w.version = currentVersion ∧ w.code.length = w.lines.length ∧ w.constants.length ≤ Chunk.poolLimit ∧
        ∃ strings, tableInto {} w.strings = .ok strings ∧ ∃ constants, valuesInto strings #[] w.constants = .ok constants ∧
          c = { code := w.code.toArray, lineTable := some w.lines.toArray, constants, strings } := by
  rw [toChunk_eq]
  split
  next other => exact ⟨nofun, fun passed => absurd passed.1 other⟩
  next version =>
    split
    next unlike => exact ⟨nofun, fun passed => absurd passed.2.1 unlike⟩
    next lined =>
      split
      next crowded => exact ⟨nofun, fun passed => absurd passed.2.2.1 (Nat.not_le.mpr crowded)⟩
      next room =>
        simp only [Decidable.not_not.mp version, Decidable.not_not.mp lined, Nat.not_lt.mp room, true_and]
        cases tableInto {} w.strings with
        | error e => simp [Except.bind]
        | ok strings =>
          simp only [Except.bind, Except.ok.injEq, exists_eq_left']
          cases valuesInto strings #[] w.constants with
          | error e => simp [Except.map]
          | ok constants => simp [Except.map, eq_comm]

/-- The checks let through the records of chunks whose parts agree, and nothing else. -/
theorem toChunk_eq_ok_iff (w : ChunkRecord) (c : Chunk) : w.toChunk = .ok c ↔ w = c.record ∧ c.Sound ∧ c.Fresh := by
  rw [toChunk_parts]
  constructor
  · rintro ⟨version, lined, room, strings, table, constants, values, rfl⟩
    have texts : strings.entries.toList = w.strings := (tableInto_eq_ok_iff ..).mp table
    obtain ⟨added, whole, entries, resolved⟩ := (valuesInto_eq_ok_iff ..).mp values
    obtain rfl : added = constants.toList := by simpa using whole.symm
    refine ⟨?_, ⟨lined, ?_, by simpa using resolved⟩, rfl, rfl⟩
    · cases w
      simp_all [Chunk.record, Chunk.lines]
    · simpa [← entries] using room
  · rintro ⟨rfl, sound, fresh⟩
    refine ⟨rfl, sound.lined, by simpa [Chunk.record] using sound.pooled, c.strings, ?_, c.constants, ?_, ?_⟩
    · exact (tableInto_eq_ok_iff ..).mpr rfl
    · exact (valuesInto_eq_ok_iff ..).mpr ⟨c.constants.toList, by simp, rfl, by simpa using sound.resolved⟩
    · exact fresh.ext ⟨rfl, rfl⟩ (by simp [Chunk.record]) (by simp [Chunk.record, Chunk.lines]) rfl rfl

end ChunkRecord

theorem Chunk.decode_eq_ok_iff (t : Text) (c : Chunk) :
    decode t = .ok c ↔ (Cbor.read? t).bind ChunkRecord.ofItem? = some c.record ∧ c.Sound ∧ c.Fresh := by
  unfold decode
  cases (Cbor.read? t).bind ChunkRecord.ofItem? with
  | none => simp
  | some w => simp [ChunkRecord.toChunk_eq_ok_iff]

theorem word_eq_iff (w w' : UInt64) : w = w' ↔ w.toUInt32 = w'.toUInt32 ∧ w >>> 32 = w' >>> 32 := by
  simp only [← UInt64.toNat_inj, ← UInt32.toNat_inj, UInt64.toNat_toUInt32, UInt64.toNat_shiftRight, UInt64.reduceToNat,
    Nat.shiftRight_eq_div_pow, Nat.reduceMod, Nat.reducePow]
  omega

/-- Two decoded objects are equal if they have the same text and their payloads agree above the reference as well. -/
theorem decoded_objects_equal_iff {t : Text} {c : Chunk} (decoded : Chunk.decode t = .ok c) {w w' : UInt64}
    (first : .object w ∈ c.constants) (second : .object w' ∈ c.constants) :
    (Value.object w).equal (.object w') = true ↔
      c.strings.format (.object w) = c.strings.format (.object w') ∧ w >>> 32 = w' >>> 32 := by
  obtain ⟨_, sound, _⟩ := (Chunk.decode_eq_ok_iff t c).mp decoded
  obtain ⟨s, entry⟩ := Option.isSome_iff_exists.mp (sound.resolved _ first)
  obtain ⟨s', entry'⟩ := Option.isSome_iff_exists.mp (sound.resolved _ second)
  have same : s = s' ↔ w.toUInt32 = w'.toUInt32 := by
    constructor
    · rintro rfl
      exact c.strings.get?_inj entry entry'
    · intro refs
      rw [refs] at entry
      exact Option.some.inj (entry.symm.trans entry')
  simp only [StringTable.format, entry, entry', Option.getD_some, same, ← word_eq_iff]
  simp [Value.equal]

/-- A program that compares its two constants, which refer to the same string. -/
def Chunk.aliased : Chunk where
  code := #[0x01, 0x00, 0x00, 0x01, 0x01, 0x00, 0x0C, 0x02]
  lineTable := some #[1, 1, 1, 1, 1, 1, 1, 1]
  constants := #[.object 0, .object 0x100000000]
  strings := ⟨#[utf8 "a"], by decide⟩

def Chunk.aliasedText : Text := [
  0xA5, 0x01, 0x01, 0x02, 0x48, 0x01, 0x00, 0x00, 0x01, 0x01, 0x00, 0x0C, 0x02,
  0x03, 0x88, 0x01, 0x01, 0x01, 0x01, 0x01, 0x01, 0x01, 0x01,
  0x04, 0x82, 0xA2, 0x01, 0x04, 0x02, 0x00, 0xA2, 0x01, 0x04, 0x02, 0x1B, 0x00, 0x00, 0x00, 0x01, 0x00, 0x00, 0x00, 0x00,
  0x05, 0x81, 0x61, 0x61]

theorem aliased_objects_differ :
    Chunk.decode Chunk.aliasedText = .ok Chunk.aliased ∧
      Chunk.aliased.strings.format (.object 0) = utf8 "a" ∧ Chunk.aliased.strings.format (.object 0x100000000) = utf8 "a" ∧
      (Value.object 0).equal (.object 0x100000000) = false := by
  have decoded : Chunk.decode Chunk.aliasedText = .ok Chunk.aliased :=
    (Chunk.decode_eq_ok_iff ..).mpr ⟨by cbv, ⟨rfl, by decide, by decide⟩, rfl, rfl⟩
  refine ⟨decoded, rfl, rfl, ?_⟩
  have apart : (0 : UInt64) >>> 32 ≠ (0x100000000 : UInt64) >>> 32 := by decide
  apply Bool.eq_false_iff.mpr
  intro equal
  exact apart ((decoded_objects_equal_iff decoded (by simp [Chunk.aliased]) (by simp [Chunk.aliased])).mp equal).2

end ExprLang
