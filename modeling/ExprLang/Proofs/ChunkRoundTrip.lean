import ExprLang.Proofs.CborLimits
import ExprLang.Proofs.CborWriting
import ExprLang.Proofs.ChunkChecks

/-! Chunks written and read back. A chunk comes back exactly if its parts agree, its tables have no more
elements than arrays may have, and its strings are well-formed; it then comes back as it was, but not frozen. -/

namespace ExprLang

open Cbor

/-- A text that fits into memory, where lengths have 63 bits. -/
def Text.Addressable (t : Text) : Prop :=
  t.length < 2 ^ 63

def Value.item (v : Value) : Item :=
  .map (numbered 1 [.unsigned v.kind.code, .unsigned v.word.toNat])

namespace Chunk

open ChunkRecord in
/-- The fields of a written chunk, each with the item that it is read as. -/
def fields (c : Chunk) : List (Text × Option Item) := [
  (unsignedText currentVersion, some (.unsigned currentVersion)),
  (bytesText c.code.toList, some (.bytes c.code.toList)),
  (arrayText (c.lines.toList.map fun line => integerText line.toInt),
    arrayItem? (fun line => .ofInt line.toInt) c.lines.toList),
  (arrayText (c.constants.toList.map constantText), arrayItem? Value.item c.constants.toList),
  (arrayText (c.strings.entries.toList.map stringText), arrayItem? (fun s => .text [s]) c.strings.entries.toList)]

/-- The item that a chunk is read as. -/
def item (c : Chunk) : Item :=
  .map (numbered 1 [
    .unsigned ChunkRecord.currentVersion,
    .bytes c.code.toList,
    .array (c.lines.toList.map fun line => .ofInt line.toInt),
    .array (c.constants.toList.map Value.item),
    .array (c.strings.entries.toList.map fun s => .text [s])])

/-- Every count and every length of a chunk fits into the head that announces it. -/
structure Measured (c : Chunk) : Prop where
  code : c.code.size < 2 ^ 64
  lines : c.lines.size < 2 ^ 64
  constants : c.constants.size < 2 ^ 64
  strings : c.strings.size < 2 ^ 64
  texts : ∀ s ∈ c.strings.entries, s.length < 2 ^ 64

/-- No table has more elements than an array may have. -/
structure Small (c : Chunk) : Prop where
  lines : c.lines.size ≤ maxElements
  constants : c.constants.size ≤ maxElements
  strings : c.strings.size ≤ maxElements

end Chunk

section Sizes
open ChunkRecord

theorem Cbor.Head.write_ne_nil (major n : Nat) : Head.write major n ≠ [] := by
  unfold Head.write
  grind

theorem length_le_arrayText {items : List Text} {t : Text} (member : t ∈ items) : t.length ≤ (arrayText items).length := by
  have inside := List.Sublist.length_le (List.sublist_flatten_of_mem member)
  rw [arrayText, List.length_append]
  omega

theorem count_le_arrayText {α : Type} {spell : α → Text} (proper : ∀ x, spell x ≠ []) (xs : List α) :
    xs.length ≤ (arrayText (xs.map spell)).length := by
  have each : xs.length ≤ (xs.map spell).flatten.length := by
    induction xs with
    | nil => exact Nat.le_refl _
    | cons x xs ih =>
      have first := List.length_pos_iff.mpr (proper x)
      simp only [List.length_cons, List.map_cons, List.flatten_cons, List.length_append]
      omega
  rw [arrayText, List.length_append]
  exact Nat.le_add_left_of_le each

theorem length_le_recordText {fields : List Text} {t : Text} (member : t ∈ fields) :
    t.length ≤ (recordText fields).length := by
  obtain ⟨index, found⟩ := List.mem_iff_getElem?.mp member
  have listed : (t, index + 1) ∈ fields.zipIdx 1 :=
    List.mk_mem_zipIdx_iff_le_and_getElem?_sub.mpr ⟨Nat.le_add_left 1 index, found⟩
  rw [recordText, List.length_append, List.flatMap_def]
  apply Nat.le_add_left_of_le
  apply Nat.le_trans _ (List.Sublist.length_le (List.sublist_flatten_of_mem (List.mem_map.mpr ⟨_, listed, rfl⟩)))
  rw [List.length_append]
  exact Nat.le_add_left _ _

theorem integerText_ne_nil (z : Int) : integerText z ≠ [] := by
  unfold integerText
  split <;> exact Head.write_ne_nil _ _

theorem constantText_ne_nil (v : Value) : constantText v ≠ [] :=
  List.append_ne_nil_of_left_ne_nil (Head.write_ne_nil _ _) _

theorem stringText_ne_nil (s : Text) : stringText s ≠ [] :=
  List.append_ne_nil_of_left_ne_nil (Head.write_ne_nil _ _) _

theorem Chunk.encode_eq {c : Chunk} (tabled : c.lineTable = some c.lines) : c.encode = recordText (c.fields.map Prod.fst) := by
  rw [encode, tabled]
  rfl

/-- Whatever a chunk consists of is no longer than the chunk as bytes. -/
theorem Chunk.measured_of_addressable {c : Chunk} (tabled : c.lineTable = some c.lines) (addressable : c.encode.Addressable) :
    c.Measured := by
  have below {t : Text} (member : t ∈ c.fields.map Prod.fst) : t.length < 2 ^ 64 := by
    rw [Text.Addressable, encode_eq tabled] at addressable
    exact Nat.lt_of_le_of_lt (length_le_recordText member) (Nat.lt_trans addressable (by decide))
  have code : (bytesText c.code.toList).length < 2 ^ 64 := below (by simp [fields])
  have lines : (arrayText (c.lines.toList.map fun line => integerText line.toInt)).length < 2 ^ 64 := below (by simp [fields])
  have constants : (arrayText (c.constants.toList.map constantText)).length < 2 ^ 64 := below (by simp [fields])
  have strings : (arrayText (c.strings.entries.toList.map stringText)).length < 2 ^ 64 := below (by simp [fields])
  refine ⟨?_, ?_, ?_, ?_, ?_⟩
  · rw [bytesText, List.length_append] at code
    exact Nat.lt_of_le_of_lt (Nat.le_add_left _ _) code
  · exact Nat.lt_of_le_of_lt (count_le_arrayText (fun line => integerText_ne_nil _) c.lines.toList) lines
  · exact Nat.lt_of_le_of_lt (count_le_arrayText constantText_ne_nil c.constants.toList) constants
  · exact Nat.lt_of_le_of_lt (count_le_arrayText stringText_ne_nil c.strings.entries.toList) strings
  · intro s member
    have whole : (stringText s).length ≤ _ := length_le_arrayText (List.mem_map_of_mem (Array.mem_def.mp member))
    rw [stringText, List.length_append] at whole
    exact Nat.lt_of_le_of_lt (Nat.le_trans (Nat.le_add_left _ _) whole) strings

end Sizes

section Writing
open ChunkRecord

theorem ValueKind.code_le (k : ValueKind) : k.code ≤ 255 := by
  cases k <;> decide

theorem yields_constant (inner : Option Reader) (v : Value) :
    Yields (itemWith (some (itemWith inner))) (constantText v) (some v.item) := by
  have kind := yields_unsigned inner (Nat.lt_of_le_of_lt v.kind.code_le (by decide) : v.kind.code < 2 ^ 64)
  have word := yields_unsigned inner v.word.toNat_lt
  exact yields_record inner [(unsignedText v.kind.code, some (.unsigned v.kind.code)),
    (unsignedText v.word.toNat, some (.unsigned v.word.toNat))] (by simp [kind, word]) (Nat.le_of_ble_eq_true rfl)

theorem yields_line (inner : Option Reader) (line : Int64) :
    Yields (itemWith inner) (integerText line.toInt) (some (.ofInt line.toInt)) :=
  yields_integer inner line.le_toInt line.toInt_lt

namespace Chunk

theorem yields_fields {c : Chunk} (measured : c.Measured) : ∀ f ∈ c.fields, Yields (item? 31) f.1 f.2 := by
  intro f member
  simp only [fields, List.mem_cons, List.not_mem_nil, or_false] at member
  rcases member with rfl | rfl | rfl | rfl | rfl
  · exact yields_unsigned _ (by decide : currentVersion < 2 ^ 64)
  · exact yields_bytes _ measured.code
  · exact yields_array (fun line _ => yields_line _ line) measured.lines
  · exact yields_array (fun v _ => yields_constant _ v) measured.constants
  · exact yields_array (fun s member => yields_string _ (measured.texts s (Array.mem_def.mpr member))) measured.strings

theorem read?_encode {c : Chunk} (tabled : c.lineTable = some c.lines) (measured : c.Measured) :
    Cbor.read? c.encode = (c.fields.mapM Prod.snd).map fun values => .map (numbered 1 values) := by
  have whole : item? maxDepth (c.encode ++ []) = _ :=
    encode_eq tabled ▸ yields_record _ c.fields (yields_fields measured) (Nat.le_of_ble_eq_true rfl) []
  rw [List.append_nil] at whole
  rw [Cbor.read?, whole]
  cases c.fields.mapM Prod.snd <;> rfl

/-- The bytes of a chunk are read as the item of the chunk, unless a table has too many elements. -/
theorem read?_encode_eq_some_iff {c : Chunk} (tabled : c.lineTable = some c.lines) (measured : c.Measured) (i : Item) :
    Cbor.read? c.encode = some i ↔ c.Small ∧ i = c.item := by
  rw [read?_encode tabled measured]
  simp only [fields, arrayItem?, List.mapM_cons, List.mapM_nil, Array.length_toList]
  by_cases lines : c.lines.size ≤ maxElements
  · by_cases constants : c.constants.size ≤ maxElements
    · by_cases strings : c.strings.entries.size ≤ maxElements
      · simp only [if_pos lines, if_pos constants, if_pos strings]
        refine ⟨fun same => ⟨⟨lines, constants, strings⟩, (Option.some.inj same).symm⟩, ?_⟩
        rintro ⟨_, rfl⟩
        rfl
      · simp only [if_pos lines, if_pos constants, if_neg strings]
        exact ⟨by simp, fun small => absurd small.1.strings strings⟩
    · simp only [if_pos lines, if_neg constants]
      exact ⟨by simp, fun small => absurd small.1.constants constants⟩
  · simp only [if_neg lines]
    exact ⟨by simp, fun small => absurd small.1.lines lines⟩

end Chunk

end Writing

section Reading
open ChunkRecord

theorem constant?_item (v : Value) : constant? v.item = some v.entry := by
  have kind : integer? 0 255 (.unsigned v.kind.code) = some (v.kind.code : Int) := integer?_unsigned v.kind.code_le
  have word : integer? 0 0xFFFFFFFFFFFFFFFF (.unsigned v.word.toNat) = some (v.word.toNat : Int) :=
    integer?_unsigned (Nat.le_of_lt_succ v.word.toNat_lt)
  simp only [constant?, Value.item, fields?_numbered, field?_numbered, List.getElem?_cons_zero, List.getElem?_cons_succ,
    Option.elim_some, kind, word, Option.bind_eq_bind, Option.bind_some, Option.pure_def, Int.toNat_natCast, UInt64.ofNat_toNat]
  rfl

theorem line_item (line : Int64) :
    (integer? Int64.minValue.toInt Int64.maxValue.toInt (.ofInt line.toInt)).map Int64.ofInt = some line := by
  rw [integer?_ofInt line.minValue_le_toInt line.toInt_le, Option.map_some, Int64.ofInt_toInt]

/-- The item of a chunk has the parts of the chunk, if the strings are well-formed. -/
theorem ofItem?_item (c : Chunk) : ofItem? c.item = if c.strings.entries.toList.all Text.isUtf8 then some c.record else none := by
  have version : integer? 0 65535 (.unsigned currentVersion) = some (currentVersion : Int) := by decide
  have code : bytes? (.bytes c.code.toList) = some c.code.toList := rfl
  have lines : list? (fun i => (integer? Int64.minValue.toInt Int64.maxValue.toInt i).map Int64.ofInt)
      (.array (c.lines.toList.map fun line => .ofInt line.toInt)) = some (c.lines.toList.map id) :=
    list?_array fun line _ => line_item line
  have constants : list? constant? (.array (c.constants.toList.map Value.item)) = some (c.constants.toList.map Value.entry) :=
    list?_array fun v _ => constant?_item v
  have strings := list?_texts c.strings.entries.toList
  simp only [ofItem?, Chunk.item, fields?_numbered, field?_numbered, List.getElem?_cons_zero, List.getElem?_cons_succ,
    Option.elim_some, version, code, lines, constants, strings, Option.bind_eq_bind, Option.bind_some, Option.pure_def, List.map_id]
  split <;> rfl

end Reading

theorem Value.entry_inj {u v : Value} (same : u.entry = v.entry) : u = v := by
  obtain ⟨codes, words⟩ := Prod.mk.inj same
  have kinds : u.kind = v.kind := by
    rw [← Option.some_inj, ← ValueKind.ofCode?_code, codes, ValueKind.ofCode?_code]
  -- Only values of one kind are left, and each kind keeps its payload as it is.
  cases u <;> cases v <;> try exact ValueKind.noConfusion kinds
  case nil => rfl
  case bool a b => cases a <;> cases b <;> simp_all [Value.word]
  case integer m n => exact congrArg integer (congrArg UInt64.toInt64 words)
  case double => exact congrArg double words
  case object => exact congrArg object words

namespace Chunk

theorem record_inj {c d : Chunk} (same : c.record = d.record) :
    c.code = d.code ∧ c.lines = d.lines ∧ c.constants = d.constants ∧ c.strings = d.strings := by
  obtain ⟨_, code, lines, constants, strings⟩ := ChunkRecord.mk.inj same
  refine ⟨Array.toList_inj.mp code, Array.toList_inj.mp lines, Array.toList_inj.mp ?_, StringTable.ext strings⟩
  exact List.map_inj_right (fun _ _ => Value.entry_inj) |>.mp constants

/-- What it takes for a chunk to be read back. -/
structure Portable (c : Chunk) : Prop where
  sound : c.Sound
  small : c.Small
  legible : ∀ s ∈ c.strings.entries, s.isUtf8 = true

/-- A chunk is read back exactly if it is portable, and it comes back as it was, but not frozen. -/
theorem decode_encode_eq_ok_iff {c : Chunk} (tabled : c.lineTable = some c.lines) (measured : c.Measured) (d : Chunk) :
    decode c.encode = .ok d ↔ c.Portable ∧ d = { c with frozen := false } := by
  have fresh : Fresh { c with frozen := false } := ⟨tabled, rfl⟩
  have legible_iff : c.strings.entries.toList.all Text.isUtf8 = true ↔ ∀ s ∈ c.strings.entries, s.isUtf8 = true := by
    simp only [List.all_eq_true, Array.mem_toList_iff]
  rw [decode_eq_ok_iff]
  constructor
  -- The record that was read is that of both chunks, and a fresh chunk is known by its record.
  · rintro ⟨read, sound, writable⟩
    obtain ⟨i, whole, parts⟩ := Option.bind_eq_some_iff.mp read
    obtain ⟨small, rfl⟩ := (read?_encode_eq_some_iff tabled measured i).mp whole
    rw [ofItem?_item] at parts
    split at parts
    next legible =>
      obtain ⟨code, lines, constants, strings⟩ := record_inj (Option.some.inj parts).symm
      obtain rfl : d = { c with frozen := false } := writable.ext fresh code lines constants strings
      exact ⟨⟨⟨sound.lined, sound.pooled, sound.resolved⟩, small, legible_iff.mp legible⟩, rfl⟩
    · simp at parts
  · rintro ⟨portable, rfl⟩
    refine ⟨?_, ⟨portable.sound.lined, portable.sound.pooled, portable.sound.resolved⟩, fresh⟩
    rw [(read?_encode_eq_some_iff tabled measured _).mpr ⟨portable.small, rfl⟩, Option.bind_some, ofItem?_item,
      if_pos (legible_iff.mpr portable.legible)]
    rfl

theorem decode_encode_isOk_iff {c : Chunk} (tabled : c.lineTable = some c.lines) (measured : c.Measured) :
    (∃ d, decode c.encode = .ok d) ↔ c.Portable := by
  simp only [decode_encode_eq_ok_iff tabled measured, exists_and_left, exists_eq, and_true]

theorem portable_of_decode {t : Text} {c : Chunk} (decoded : decode t = .ok c) :
    c.Portable ∧ ∀ s ∈ c.strings.entries, s.length ≤ t.length := by
  obtain ⟨read, sound, _⟩ := (decode_eq_ok_iff t c).mp decoded
  obtain ⟨i, whole, parts⟩ := Option.bind_eq_some_iff.mp read
  obtain ⟨lines, strings, texts⟩ := ofItem?_within (read?_within whole) parts
  have small : c.Small := ⟨lines, Nat.le_trans sound.pooled (by decide), strings⟩
  have legible {s : Text} (member : s ∈ c.strings.entries) := texts s (Array.mem_def.mp member)
  exact ⟨⟨sound, small, fun s member => (legible member).1⟩, fun s member => (legible member).2⟩

theorem measured_of_decode {t : Text} {c : Chunk} (addressable : t.Addressable) (decoded : decode t = .ok c) : c.Measured := by
  obtain ⟨⟨sound, small, _⟩, texts⟩ := portable_of_decode decoded
  have below {n : Nat} (few : n ≤ maxElements) : n < 2 ^ 64 := Nat.lt_of_le_of_lt few (by decide)
  refine ⟨?_, below small.lines, below small.constants, below small.strings, ?_⟩
  · rw [sound.lined]
    exact below small.lines
  · intro s member
    exact Nat.lt_of_le_of_lt (texts s member) (Nat.lt_trans addressable (by decide))

theorem decode_encode_of_decode {t : Text} {c : Chunk} (addressable : t.Addressable) (decoded : decode t = .ok c) :
    decode c.encode = .ok c := by
  obtain ⟨_, _, tabled, writable⟩ := (decode_eq_ok_iff t c).mp decoded
  apply (decode_encode_eq_ok_iff tabled (measured_of_decode addressable decoded) c).mpr
  refine ⟨(portable_of_decode decoded).1, ?_⟩
  rw [← writable]

end Chunk

theorem Value.entry_payload (v : Value) :
    (v.entry.1 = ValueKind.nil.code → v.entry.2 = 0) ∧
      (v.entry.1 = ValueKind.bool.code → v.entry.2 = 0 ∨ v.entry.2 = 1) := by
  cases v with
  | nil => exact ⟨fun _ => rfl, fun _ => .inl rfl⟩
  | bool b => cases b <;> decide
  | integer n => exact ⟨nofun, nofun⟩
  | double word => exact ⟨nofun, nofun⟩
  | object word => exact ⟨nofun, nofun⟩

theorem StringTable.contains_eq_true_iff (t : StringTable) (v : Value) :
    t.contains v = true ↔ ∀ w, v = .object w → w.toUInt32.toNat < t.size := by
  cases v with
  | object word => simp [contains, get?, size]
  | _ => simp [contains]

/-- Whatever is read as a chunk is sound, and writing the chunk gives bytes that are read as the same chunk. -/
theorem decoded_sound_and_canonical {t : Text} {c : Chunk} (addressable : t.Addressable) (decoded : Chunk.decode t = .ok c) :
    c.code.size = c.lines.size ∧ c.constants.size ≤ 65536 ∧
      (∀ w, .object w ∈ c.constants → w.toUInt32.toNat < c.strings.size) ∧
      (∃ record, (Cbor.read? t).bind ChunkRecord.ofItem? = some record ∧
        record.code = c.code.toList ∧ record.lines = c.lines.toList ∧
        record.constants = c.constants.toList.map (fun v => (v.kind.code, v.word)) ∧
        (∀ entry ∈ record.constants, (entry.1 = ValueKind.nil.code → entry.2 = 0) ∧
          (entry.1 = ValueKind.bool.code → entry.2 = 0 ∨ entry.2 = 1)) ∧
        record.strings = c.strings.entries.toList ∧ record.strings.Nodup) ∧
      Chunk.decode c.encode = .ok c ∧ ∀ d, Chunk.decode c.encode = .ok d → d.encode = c.encode := by
  obtain ⟨read, sound, _⟩ := (Chunk.decode_eq_ok_iff t c).mp decoded
  have again := Chunk.decode_encode_of_decode addressable decoded
  refine ⟨sound.lined, sound.pooled, ?_, ⟨c.record, read, rfl, rfl, rfl, ?_, rfl, c.strings.distinct⟩, again, ?_⟩
  · intro w member
    exact (c.strings.contains_eq_true_iff _).mp (sound.resolved _ member) w rfl
  · intro entry member
    obtain ⟨v, _, rfl⟩ := List.mem_map.mp member
    exact v.entry_payload
  · intro d decoded
    rw [again] at decoded
    obtain rfl := Except.ok.inj decoded
    rfl

def Chunk.oneString : Chunk where
  code := #[0x02]
  lineTable := some #[1]
  constants := #[.object 0]
  strings := ⟨#[utf8 "ab"], by decide⟩

/-- A chunk with its fields out of order and one too many, with open ends and with longer heads than needed. -/
def Chunk.scrambledText : Text := [
  0xBF, 0x05, 0x9F, 0x7F, 0x61, 0x61, 0x61, 0x62, 0xFF, 0xFF, 0x18, 0x63, 0xF6, 0x02, 0x5F, 0x41, 0x02, 0xFF,
  0x04, 0x81, 0xA2, 0x02, 0x00, 0x01, 0x04, 0x03, 0x81, 0x18, 0x01, 0x01, 0x19, 0x00, 0x01, 0xFF]

theorem scrambled_has_canonical_form :
    Chunk.decode Chunk.scrambledText = .ok Chunk.oneString ∧ Chunk.oneString.encode ≠ Chunk.scrambledText ∧
      Chunk.decode Chunk.oneString.encode = .ok Chunk.oneString := by
  have decoded : Chunk.decode Chunk.scrambledText = .ok Chunk.oneString :=
    (Chunk.decode_eq_ok_iff ..).mpr ⟨by cbv, ⟨rfl, by decide, by decide⟩, rfl, rfl⟩
  have addressable : Chunk.scrambledText.Addressable := by
    unfold Text.Addressable
    decide
  obtain ⟨_, _, _, _, again, _⟩ := decoded_sound_and_canonical addressable decoded
  exact ⟨decoded, by decide, again⟩

end ExprLang
