import Mathlib
import ExprLang.Chunk.Record

/-! What is written as CBOR and read again. Every part of a written record either comes back as the item that
it stands for, with what follows it untouched, or is refused as a whole because it has too many elements. -/

namespace ExprLang.Cbor

namespace Head

theorem length_bigEndian (width n : Nat) : (bigEndian width n).length = width := by
  induction width generalizing n with
  | zero => rfl
  | succ width ih => simp [bigEndian, ih]

theorem ofBigEndian_append (t : Text) (b : UInt8) : ofBigEndian (t ++ [b]) = 256 * ofBigEndian t + b.toNat := by
  simp [ofBigEndian]

theorem ofBigEndian_bigEndian {width n : Nat} (fits : n < 256 ^ width) : ofBigEndian (bigEndian width n) = n := by
  induction width generalizing n with
  | zero =>
    have zero : n = 0 := by simpa using fits
    rw [zero]
    rfl
  | succ width ih =>
    have smaller : n / 256 < 256 ^ width := by
      rw [Nat.pow_succ] at fits
      exact Nat.div_lt_of_lt_mul (Nat.mul_comm _ _ ▸ fits)
    rw [bigEndian, ofBigEndian_append, ih smaller, UInt8.toNat_ofNat']
    omega

private theorem read_wide {major n : Nat} (step : Nat) (known : major < 8) (narrow : step < 4) (fits : n < 256 ^ 2 ^ step)
    (rest : Text) :
    read? (UInt8.ofNat (32 * major + (24 + step)) :: bigEndian (2 ^ step) n ++ rest) = some (⟨major, 24 + step, n⟩, rest) := by
  have byte : (UInt8.ofNat (32 * major + (24 + step))).toNat = 32 * major + (24 + step) := by
    rw [UInt8.toNat_ofNat']
    omega
  have major' : (32 * major + (24 + step)) / 32 = major := by omega
  have info : (32 * major + (24 + step)) % 32 = 24 + step := by omega
  have width : 1 <<< step = (bigEndian (2 ^ step) n).length := by rw [length_bigEndian, Nat.one_shiftLeft]
  rw [List.cons_append, read?]
  simp only [byte, major', info]
  rw [if_neg (by omega), if_pos (by omega), Nat.add_sub_cancel_left, width, List.take_left, List.drop_left, if_pos rfl,
    ofBigEndian_bigEndian fits]

/-- A written head is read as it was meant, and it announces no indefinite length. -/
theorem read_write {major n : Nat} (known : major < 8) (fits : n < 2 ^ 64) (rest : Text) :
    ∃ info, info < indefinite ∧ read? (write major n ++ rest) = some (⟨major, info, n⟩, rest) := by
  unfold write
  split
  next small =>
    refine ⟨n, Nat.lt_trans small (by decide), ?_⟩
    have byte : (UInt8.ofNat (32 * major + n)).toNat = 32 * major + n := by
      rw [UInt8.toNat_ofNat']
      omega
    have major' : (32 * major + n) / 32 = major := by omega
    have info : (32 * major + n) % 32 = n := by omega
    simp only [List.singleton_append, read?, byte, major', info, if_pos small]
  · split
    next one => exact ⟨24, by decide, read_wide 0 known (by decide) one rest⟩
    · split
      next two => exact ⟨25, by decide, read_wide 1 known (by decide) two rest⟩
      · split
        next four => exact ⟨26, by decide, read_wide 2 known (by decide) four rest⟩
        · exact ⟨27, by decide, read_wide 3 known (by decide) fits rest⟩

end Head

/-- A text that a reader takes for an item, or refuses, whatever follows it. -/
def Yields (item : Reader) (t : Text) (result : Option Item) : Prop :=
  ∀ rest, item (t ++ rest) = result.map (·, rest)

/-- The item of an integer. -/
def Item.ofInt (z : Int) : Item :=
  if z < 0 then .negative (-1 - z).toNat else .unsigned z.toNat

/-- The item of an array, if there may be an array of that many elements. -/
def arrayItem? {α : Type} (stands : α → Item) (xs : List α) : Option Item :=
  if xs.length ≤ maxElements then some (.array (xs.map stands)) else none

/-- The keys and values of a record whose fields are numbered from `start` on. -/
def numbered (start : Nat) (values : List Item) : List Item :=
  (values.zipIdx start).flatMap fun (i, n) => [.unsigned n, i]

section Written
open ChunkRecord
variable (inner : Option Reader)

theorem itemWith_write {major n : Nat} (known : major < 6) (fits : n < 2 ^ 64) (rest : Text) :
    ∃ info, info < Head.indefinite ∧ itemWith inner (Head.write major n ++ rest) = body? inner ⟨major, info, n⟩ rest := by
  obtain ⟨info, definite, reads⟩ := Head.read_write (Nat.lt_trans known (by decide)) fits rest
  refine ⟨info, definite, ?_⟩
  simp only [itemWith, reads]
  rw [if_neg (Nat.ne_of_lt known)]

theorem isIndefinite_eq_false {major info n : Nat} (definite : info < Head.indefinite) :
    Head.isIndefinite ⟨major, info, n⟩ = false :=
  decide_eq_false (Nat.ne_of_lt definite)

theorem pieces?_definite {major info : Nat} (definite : info < Head.indefinite) (t rest : Text) :
    pieces? ⟨major, info, t.length⟩ (t ++ rest) = some ([t], rest) := by
  simp [pieces?, takeBytes?, isIndefinite_eq_false definite]

theorem yields_unsigned {n : Nat} (fits : n < 2 ^ 64) : Yields (itemWith inner) (unsignedText n) (some (.unsigned n)) := by
  intro rest
  obtain ⟨info, definite, reads⟩ := itemWith_write inner (by decide : 0 < 6) fits rest
  rw [unsignedText, reads]
  simp [body?, isIndefinite_eq_false definite]

theorem yields_integer {z : Int} (low : -2 ^ 63 ≤ z) (high : z < 2 ^ 63) :
    Yields (itemWith inner) (integerText z) (some (.ofInt z)) := by
  unfold integerText Item.ofInt
  split
  next negative =>
    intro rest
    obtain ⟨info, definite, reads⟩ := itemWith_write inner (by decide : 1 < 6) (by omega : (-1 - z).toNat < 2 ^ 64) rest
    rw [reads]
    simp [body?, isIndefinite_eq_false definite]
  · exact yields_unsigned inner (by omega)

theorem yields_bytes {t : Text} (fits : t.length < 2 ^ 64) : Yields (itemWith inner) (bytesText t) (some (.bytes t)) := by
  intro rest
  obtain ⟨info, definite, reads⟩ := itemWith_write inner (by decide : 2 < 6) fits (t ++ rest)
  rw [bytesText, List.append_assoc, reads]
  simp [body?, pieces?_definite definite]

theorem yields_string {t : Text} (fits : t.length < 2 ^ 64) : Yields (itemWith inner) (stringText t) (some (.text [t])) := by
  intro rest
  obtain ⟨info, definite, reads⟩ := itemWith_write inner (by decide : 3 < 6) fits (t ++ rest)
  rw [stringText, List.append_assoc, reads]
  simp [body?, pieces?_definite definite]

end Written

section Collections
open ChunkRecord

theorem itemsInto_written {α : Type} {item : Reader} {spell : α → Text} {stands : α → Item} {xs : List α}
    (each : ∀ x ∈ xs, Yields item (spell x) (some (stands x))) (read : Array Item) (rest : Text) :
    itemsInto item read xs.length ((xs.map spell).flatten ++ rest) = some (read.toList ++ xs.map stands, rest) := by
  induction xs generalizing read with
  | nil => simp [itemsInto]
  | cons x xs ih =>
    have first := each x (by simp) ((xs.map spell).flatten ++ rest)
    simp only [List.length_cons, List.map_cons, List.flatten_cons, List.append_assoc, itemsInto, first, Option.map_some]
    rw [ih fun y member => each y (by simp [member])]
    simp

/-- An array comes back with its elements, unless it has too many. -/
theorem yields_array {α : Type} {item : Reader} {spell : α → Text} {stands : α → Item} {xs : List α}
    (each : ∀ x ∈ xs, Yields item (spell x) (some (stands x))) (fits : xs.length < 2 ^ 64) :
    Yields (itemWith (some item)) (arrayText (xs.map spell)) (arrayItem? stands xs) := by
  intro rest
  obtain ⟨info, definite, reads⟩ :=
    itemWith_write (some item) (by decide : 4 < 6) fits ((xs.map spell).flatten ++ rest)
  rw [arrayText, List.length_map, List.append_assoc, reads]
  simp only [body?, Option.bind_some, elements?, isIndefinite_eq_false definite, Bool.false_eq_true, if_false, Nat.one_mul,
    arrayItem?]
  split
  · rw [itemsInto_written each]
    simp
  · rfl

theorem itemsInto_numbered (inner : Option Reader) {fields : List (Text × Option Item)}
    (each : ∀ f ∈ fields, Yields (itemWith inner) f.1 f.2) (start : Nat) (fits : start + fields.length ≤ 2 ^ 64)
    (read : Array Item) (rest : Text) :
    itemsInto (itemWith inner) read (2 * fields.length)
        ((((fields.map Prod.fst).zipIdx start).flatMap fun (field, number) => unsignedText number ++ field) ++ rest) =
      (fields.mapM Prod.snd).map fun values => (read.toList ++ numbered start values, rest) := by
  induction fields generalizing start read with
  | nil => simp [itemsInto, numbered]
  | cons f fields ih =>
    rw [List.length_cons] at fits
    have key := yields_unsigned inner (by omega : start < 2 ^ 64)
    have value := each f (by simp)
    have others := ih (fun g member => each g (by simp [member])) (start + 1) (by omega)
    simp only [List.length_cons, Nat.mul_add, List.map_cons, List.zipIdx_cons, List.flatMap_cons, List.append_assoc,
      itemsInto, key _, value _, Option.map_some, List.mapM_cons]
    -- A field that is refused refuses all that follows.
    cases f.2 with
    | none => rfl
    | some i =>
      simp only [Option.map_some, others]
      cases fields.mapM Prod.snd with
      | none => rfl
      | some values => simp [numbered]

/-- A record comes back with its fields, unless one of them is refused. -/
theorem yields_record (inner : Option Reader) (fields : List (Text × Option Item))
    (each : ∀ f ∈ fields, Yields (itemWith inner) f.1 f.2) (few : fields.length ≤ maxElements) :
    Yields (itemWith (some (itemWith inner))) (recordText (fields.map Prod.fst))
      ((fields.mapM Prod.snd).map fun values => .map (numbered 1 values)) := by
  intro rest
  have room : 1 + maxElements ≤ 2 ^ 64 := by decide
  have fits : (fields.map Prod.fst).length < 2 ^ 64 := by
    rw [List.length_map]
    omega
  obtain ⟨info, definite, reads⟩ := itemWith_write (some (itemWith inner)) (by decide : 5 < 6) fits
    ((((fields.map Prod.fst).zipIdx 1).flatMap fun (field, number) => unsignedText number ++ field) ++ rest)
  rw [recordText, List.append_assoc, reads]
  simp only [body?, Option.bind_some, elements?, isIndefinite_eq_false definite, Bool.false_eq_true, if_false,
    List.length_map, if_pos few]
  rw [itemsInto_numbered inner each 1 (by omega)]
  cases fields.mapM Prod.snd <;> simp

end Collections

section Fields

theorem fieldsInto_numbered (found : Array (Nat × Item)) (start : Nat) (values : List Item) :
    fieldsInto found (numbered start values) = some (found.toList ++ (values.zipIdx start).map Prod.swap) := by
  induction values generalizing found start with
  | nil => simp [numbered, fieldsInto]
  | cons i values ih =>
    have others := ih (found.push (start, i)) (start + 1)
    simp only [numbered] at others
    simp [numbered, fieldsInto, fieldNumber?, others]

theorem fields?_numbered (values : List Item) :
    fields? (.map (numbered 1 values)) = some ((values.zipIdx 1).map Prod.swap) := by
  simp [fields?, plain?, fieldsInto_numbered]

theorem lookup_numbered (values : List Item) (start number : Nat) :
    ((values.zipIdx start).map Prod.swap).lookup (start + number) = values[number]? := by
  induction values generalizing start number with
  | nil => rfl
  | cons i values ih =>
    cases number with
    | zero => simp
    | succ number =>
      have later : (start + (number + 1) == start) = false := by simp
      rw [List.getElem?_cons_succ, ← ih (start + 1) number, Nat.add_right_comm]
      simp only [List.zipIdx_cons, List.map_cons, Prod.swap_prod_mk, List.lookup, later]
      rfl

theorem field?_numbered {α : Type} (values : List Item) (number : Nat) (read : Item → Option α) (zero : α) :
    field? ((values.zipIdx 1).map Prod.swap) (number + 1) read zero = values[number]?.elim (some zero) read := by
  rw [field?, Nat.add_comm, lookup_numbered]
  cases values[number]? <;> rfl

theorem integer?_ofInt {low high z : Int} (above : low ≤ z) (below : z ≤ high) :
    integer? low high (.ofInt z) = some z := by
  unfold Item.ofInt
  split
  next negative =>
    have same : -1 - ((-1 - z).toNat : Int) = z := by omega
    simp only [integer?, plain?, same]
    simp [above, below]
  next positive =>
    have same : (z.toNat : Int) = z := by omega
    simp only [integer?, plain?, same]
    simp [above, below]

theorem integer?_unsigned {high n : Nat} (below : n ≤ high) : integer? 0 high (.unsigned n) = some (n : Int) :=
  integer?_ofInt (Int.natCast_nonneg n) (Int.ofNat_le.mpr below)

theorem list?_array {α β : Type} {element : Item → Option β} {stands : α → Item} {value : α → β} {xs : List α}
    (each : ∀ x ∈ xs, element (stands x) = some (value x)) :
    list? element (.array (xs.map stands)) = some (xs.map value) := by
  simp only [list?, plain?]
  induction xs with
  | nil => rfl
  | cons x xs ih =>
    have others := ih fun y member => each y (by simp [member])
    simp [each x (by simp), others]

theorem text?_piece (t : Text) : text? (.text [t]) = if t.isUtf8 then some t else none := by
  simp [text?, plain?, joined?]

theorem list?_texts (ts : List Text) :
    list? text? (.array (ts.map fun t => .text [t])) = if ts.all Text.isUtf8 then some ts else none := by
  simp only [list?, plain?]
  induction ts with
  | nil => rfl
  | cons t ts ih =>
    simp only [List.map_cons, List.mapM_cons, ih, text?_piece, List.all_cons]
    by_cases first : t.isUtf8 = true <;> by_cases others : ts.all Text.isUtf8 = true <;> simp [first, others]

end Fields

end ExprLang.Cbor
