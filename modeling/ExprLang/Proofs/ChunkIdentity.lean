import ExprLang.Proofs.ChunkEdits

/-! What the bytes of a chunk tell about it. Each part announces how long it is, so that it ends at the same place whatever
follows, and two chunks with the same bytes have the same parts. None of this asks whether the bytes can be read back. -/

namespace ExprLang

open Cbor

theorem Cbor.Head.write_inj {major major' n n' : Nat} (known : major < 8) (known' : major' < 8) (fits : n < 2 ^ 64)
    (fits' : n' < 2 ^ 64) {rest rest' : Text} (same : write major n ++ rest = write major' n' ++ rest') :
    major = major' ∧ n = n' ∧ rest = rest' := by
  obtain ⟨info, _, reads⟩ := read_write known fits rest
  obtain ⟨info', _, reads'⟩ := read_write known' fits' rest'
  obtain ⟨heads, rests⟩ := Prod.mk.inj (Option.some.inj (reads.symm.trans (same ▸ reads')))
  obtain ⟨majors, _, arguments⟩ := Head.mk.inj heads
  exact ⟨majors, arguments, rests⟩

/-- Two things that are written alike, whatever follows them, are alike in some respect, and they end at the same place. -/
def Tells {α : Type} (fits : α → Prop) (spell : α → Text) (alike : α → α → Prop) : Prop :=
  ∀ x y, fits x → fits y → ∀ rest rest', spell x ++ rest = spell y ++ rest' → alike x y ∧ rest = rest'

section Tells
open ChunkRecord
variable {α β : Type} {fits : α → Prop}

theorem Tells.of {spell : β → Text} {small : β → Prop} (tells : Tells small spell Eq) (part : α → β)
    (known : ∀ x, fits x → small (part x)) : Tells fits (fun x => spell (part x)) (fun x y => part x = part y) := by
  intro x y left right rest rest' same
  exact tells (part x) (part y) (known x left) (known y right) rest rest' same

theorem tells_unsigned : Tells (· < 2 ^ 64) unsignedText Eq := by
  intro m n left right rest rest' same
  exact (Head.write_inj (by decide) (by decide) left right same).2

/-- The head of an integer tells its sign and its number. -/
private theorem integerText_head {z : Int} (lower : -2 ^ 63 ≤ z) (upper : z < 2 ^ 63) :
    ∃ major n, major < 8 ∧ n < 2 ^ 64 ∧ integerText z = Head.write major n ∧ z = if major = 1 then -1 - (n : Int) else n := by
  unfold integerText
  split
  next negative =>
    refine ⟨1, (-1 - z).toNat, by decide, by omega, rfl, ?_⟩
    rw [if_pos rfl]
    omega
  next positive =>
    refine ⟨0, z.toNat, by decide, by omega, rfl, ?_⟩
    rw [if_neg (by decide)]
    omega

theorem tells_line : Tells (fun _ => True) (fun line : Int64 => integerText line.toInt) Eq := by
  intro x y _ _ rest rest' same
  obtain ⟨major, n, known, fits, spelt, left⟩ := integerText_head x.le_toInt x.toInt_lt
  obtain ⟨major', n', known', fits', spelt', right⟩ := integerText_head y.le_toInt y.toInt_lt
  simp only [spelt, spelt'] at same
  obtain ⟨rfl, rfl, rests⟩ := Head.write_inj known known' fits fits' same
  exact ⟨Int64.toInt_inj.mp (left.trans right.symm), rests⟩

private theorem tells_sized {major : Nat} (known : major < 8) :
    Tells (fun t : Text => t.length < 2 ^ 64) (fun t => Head.write major t.length ++ t) Eq := by
  intro t u left right rest rest' same
  simp only [List.append_assoc] at same
  obtain ⟨_, lengths, bodies⟩ := Head.write_inj known known left right same
  exact List.append_inj bodies lengths

theorem tells_bytes : Tells (fun t : Text => t.length < 2 ^ 64) bytesText Eq :=
  tells_sized (by decide)

theorem tells_string : Tells (fun t : Text => t.length < 2 ^ 64) stringText Eq :=
  tells_sized (by decide)

private theorem tells_items {spell : α → Text} (each : Tells fits spell Eq) {xs ys : List α} (lengths : xs.length = ys.length)
    (left : ∀ x ∈ xs, fits x) (right : ∀ y ∈ ys, fits y) {rest rest' : Text}
    (same : (xs.map spell).flatten ++ rest = (ys.map spell).flatten ++ rest') : xs = ys ∧ rest = rest' := by
  induction xs generalizing ys with
  | nil =>
    obtain rfl : ys = [] := List.length_eq_zero_iff.mp lengths.symm
    exact ⟨rfl, same⟩
  | cons x xs ih =>
    obtain ⟨y, ys, rfl⟩ := List.exists_cons_of_length_eq_add_one lengths.symm
    simp only [List.map_cons, List.flatten_cons, List.append_assoc] at same
    obtain ⟨rfl, others⟩ := each x y (left x (by simp)) (right y (by simp)) _ _ same
    obtain ⟨rfl, rests⟩ := ih (by simpa using lengths) (fun x member => left x (by simp [member]))
      (fun y member => right y (by simp [member])) others
    exact ⟨rfl, rests⟩

theorem tells_array {spell : α → Text} (each : Tells fits spell Eq) :
    Tells (fun xs : List α => xs.length < 2 ^ 64 ∧ ∀ x ∈ xs, fits x) (fun xs => arrayText (xs.map spell)) Eq := by
  intro xs ys left right rest rest' same
  simp only [arrayText, List.length_map, List.append_assoc] at same
  obtain ⟨_, lengths, items⟩ := Head.write_inj (by decide) (by decide) left.1 right.1 same
  exact tells_items each lengths left.2 right.2 items

private theorem tells_fields (fields : List ((α → Text) × (α → α → Prop))) (each : ∀ f ∈ fields, Tells fits f.1 f.2)
    (start : Nat) :
    Tells fits (fun x => ((fields.map fun f => f.1 x).zipIdx start).flatMap fun (field, number) => unsignedText number ++ field)
      (fun x y => ∀ f ∈ fields, f.2 x y) := by
  induction fields generalizing start with
  | nil =>
    intro x y _ _ rest rest' same
    exact ⟨by simp, same⟩
  | cons f fields ih =>
    intro x y left right rest rest' same
    simp only [List.map_cons, List.zipIdx_cons, List.flatMap_cons, List.append_assoc] at same
    obtain ⟨alike, others⟩ := each f (by simp) x y left right _ _ (List.append_cancel_left same)
    obtain ⟨all, rests⟩ := ih (fun g member => each g (by simp [member])) (start + 1) x y left right _ _ others
    refine ⟨?_, rests⟩
    intro g member
    rcases List.mem_cons.mp member with rfl | member
    · exact alike
    · exact all g member

/-- A record tells what each of its fields tells. -/
theorem tells_record (fields : List ((α → Text) × (α → α → Prop))) (each : ∀ f ∈ fields, Tells fits f.1 f.2) :
    Tells fits (fun x => recordText (fields.map fun f => f.1 x)) (fun x y => ∀ f ∈ fields, f.2 x y) := by
  intro x y left right rest rest' same
  simp only [recordText, List.length_map, List.append_assoc] at same
  exact tells_fields fields each 1 x y left right rest rest' (List.append_cancel_left same)

theorem tells_constant : Tells (fun _ => True) constantText Eq := by
  have small (v : Value) : v.kind.code < 2 ^ 64 := Nat.lt_of_le_of_lt v.kind.code_le (by decide)
  have kind : Tells (fun _ => True) _ _ := tells_unsigned.of (fun v : Value => v.kind.code) (fun v _ => small v)
  have word : Tells (fun _ => True) _ _ := tells_unsigned.of (fun v : Value => v.word.toNat) (fun v _ => v.word.toNat_lt)
  have record := tells_record [(_, _), (_, _)] (by simpa using ⟨kind, word⟩)
  intro u v left right rest rest' same
  obtain ⟨fields, rests⟩ := record u v left right rest rest' same
  simp only [List.forall_mem_cons] at fields
  obtain ⟨kinds, words, _⟩ := fields
  exact ⟨Value.entry_inj (Prod.ext kinds (UInt64.toNat_inj.mp words)), rests⟩

end Tells

namespace Chunk

/-- All that is in a chunk. -/
def contents (c : Chunk) : List UInt8 × List Int64 × List (ValueKind × UInt64) × List Text :=
  (c.code.toList, c.lines.toList, c.constants.toList.map fun v => (v.kind, v.word), c.strings.entries.toList)

open ChunkRecord in
/-- The fields of a written chunk, each with what it tells. -/
def parts : List ((Chunk → Text) × (Chunk → Chunk → Prop)) := [
  (fun _ => unsignedText currentVersion, fun _ _ => True),
  (fun c => bytesText c.code.toList, fun c d => c.code.toList = d.code.toList),
  (fun c => arrayText (c.lines.toList.map fun line => integerText line.toInt), fun c d => c.lines.toList = d.lines.toList),
  (fun c => arrayText (c.constants.toList.map constantText), fun c d => c.constants.toList = d.constants.toList),
  (fun c => arrayText (c.strings.entries.toList.map stringText), fun c d => c.strings.entries.toList = d.strings.entries.toList)]

theorem tells_parts : ∀ f ∈ parts, Tells Measured f.1 f.2 := by
  intro f member
  simp only [parts, List.mem_cons, List.not_mem_nil, or_false] at member
  rcases member with rfl | rfl | rfl | rfl | rfl
  · intro c d _ _ rest rest' same
    exact ⟨trivial, List.append_cancel_left same⟩
  · exact tells_bytes.of (fun c : Chunk => c.code.toList) fun c measured => measured.code
  · exact (tells_array tells_line).of (fun c : Chunk => c.lines.toList) fun c measured => ⟨measured.lines, fun _ _ => trivial⟩
  · exact (tells_array tells_constant).of (fun c : Chunk => c.constants.toList) fun c measured =>
      ⟨measured.constants, fun _ _ => trivial⟩
  · exact (tells_array tells_string).of (fun c : Chunk => c.strings.entries.toList) fun c measured =>
      ⟨measured.strings, fun s member => measured.texts s (Array.mem_def.mpr member)⟩

theorem encode_eq_iff {c d : Chunk} (tabled : c.lineTable = some c.lines) (tabled' : d.lineTable = some d.lines)
    (measured : c.Measured) (measured' : d.Measured) : c.encode = d.encode ↔ c.contents = d.contents := by
  rw [encode_eq tabled, encode_eq tabled']
  constructor
  · intro same
    have continued := congrArg (· ++ []) same
    obtain ⟨told, _⟩ := tells_record parts tells_parts c d measured measured' [] [] continued
    simp only [parts, List.forall_mem_cons] at told
    obtain ⟨_, code, lines, constants, strings, _⟩ := told
    simp only [contents, code, lines, constants, strings]
  · intro same
    obtain ⟨code, others⟩ := Prod.mk.inj same
    obtain ⟨lines, others⟩ := Prod.mk.inj others
    obtain ⟨entries, strings⟩ := Prod.mk.inj others
    have constants : c.constants.toList = d.constants.toList := by
      refine (List.map_inj_right fun u v equal => ?_).mp entries
      obtain ⟨kinds, words⟩ := Prod.mk.inj equal
      exact Value.entry_inj (Prod.ext (congrArg ValueKind.code kinds) words)
    simp only [fields, code, lines, constants, strings]

/-- Chunks that are built by edits, and whose counts and lengths are numbers of 64 bits, have the same bytes exactly if they
have the same contents. With other contents only a collision of digests gives them the same fingerprint. -/
theorem encode_identifies_build (edits edits' : List Edit) {c d : Chunk} (built : build edits = c) (built' : build edits' = d)
    (measured : c.Measured) (measured' : d.Measured) :
    (c.encode = d.encode ↔ c.contents = d.contents) ∧
      (c.fingerprint = d.fingerprint ↔
        c.contents = d.contents ∨ c.encode ≠ d.encode ∧ Sha256.digest c.encode = Sha256.digest d.encode) := by
  have tabled : c.lineTable = some c.lines := built ▸ (build_lined edits).tabled
  have tabled' : d.lineTable = some d.lines := built' ▸ (build_lined edits').tabled
  have same := encode_eq_iff tabled tabled' measured measured'
  refine ⟨same, ?_⟩
  rw [← same, fingerprint, fingerprint]
  constructor
  · intro digests
    by_cases bytes : c.encode = d.encode
    · exact .inl bytes
    · exact .inr ⟨bytes, digests⟩
  · rintro (bytes | ⟨_, digests⟩)
    · rw [bytes]
    · exact digests

/-- One instruction, and a string that cannot be read back. -/
def illegible (line : Int64) : Chunk where
  code := #[0x02]
  lineTable := some #[line]
  strings := ⟨#[[0xFF]], by decide⟩

theorem illegible_lines_apart :
    build [.byte 0x02 (-24), .string [0xFF]] = illegible (-24) ∧ build [.string [0xFF], .byte 0x02 (-25)] = illegible (-25) ∧
      (illegible (-24)).encode ≠ (illegible (-25)).encode := by
  have first : build [.byte 0x02 (-24), .string [0xFF]] = illegible (-24) := by decide +kernel
  have second : build [.string [0xFF], .byte 0x02 (-25)] = illegible (-25) := by decide +kernel
  have measured (line : Int64) : (illegible line).Measured := by
    refine ⟨by simp [illegible], by simp [illegible, lines], by simp [illegible], by simp [illegible, StringTable.size], ?_⟩
    simp [illegible]
  obtain ⟨same, _⟩ := encode_identifies_build _ _ first second (measured (-24)) (measured (-25))
  refine ⟨first, second, ?_⟩
  rw [ne_eq, same]
  decide

end Chunk

end ExprLang
