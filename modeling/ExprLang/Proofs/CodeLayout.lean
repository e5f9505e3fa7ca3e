import ExprLang.Program.Code
import ExprLang.Proofs.Interning

/-! Where the code of a program lies in its chunk. Appending an instruction moves nothing that is there
already, so that every instruction is found where it was put, with the line and the constant of its own. -/

namespace ExprLang

/-- The literal that a value stands for. A string is known to its value by an entry of the table. -/
inductive Value.Denotes (strings : StringTable) : Value → Literal → Prop
  | nil : Denotes strings .nil .nil
  | bool (b : Bool) : Denotes strings (.bool b) (.bool b)
  | integer (n : Int64) : Denotes strings (.integer n) (.integer n)
  | double (word : UInt64) : Denotes strings (.double word) (.double word)
  | string {word : UInt64} {s : Text} :
      word.toNat < UInt32.size → strings.get? word.toUInt32 = some s → Denotes strings (.object word) (.string s)

namespace Chunk

/-- Everything in the first chunk stands at the same place in the second. -/
structure Extends (c d : Chunk) : Prop where
  code : ∀ {i : Nat} {b}, c.code[i]? = some b → d.code[i]? = some b
  lines : ∀ {i : Nat} {line}, c.lines[i]? = some line → d.lines[i]? = some line
  constants : ∀ {i : Nat} {v}, c.constants[i]? = some v → d.constants[i]? = some v
  texts : ∀ {ref : UInt32} {s}, c.strings.get? ref = some s → d.strings.get? ref = some s

namespace Extends

theorem refl (c : Chunk) : c.Extends c :=
  ⟨id, id, id, id⟩

theorem trans {c d e : Chunk} (first : c.Extends d) (second : d.Extends e) : c.Extends e :=
  ⟨second.code ∘ first.code, second.lines ∘ first.lines, second.constants ∘ first.constants, second.texts ∘ first.texts⟩

theorem operandAt? {c d : Chunk} (larger : c.Extends d) {offset : Nat} {operand : UInt16}
    (found : c.operandAt? offset = some operand) : d.operandAt? offset = some operand := by
  simp only [Chunk.operandAt?] at found ⊢
  split at found
  next low high first second => rw [larger.code first, larger.code second]; exact found
  · simp at found

theorem denotes {c d : Chunk} (larger : c.Extends d) {v : Value} {l : Literal} (denotes : v.Denotes c.strings l) :
    v.Denotes d.strings l := by
  cases denotes with
  | nil => exact .nil
  | bool b => exact .bool b
  | integer n => exact .integer n
  | double word => exact .double word
  | string low entry => exact .string low (larger.texts entry)

end Extends

private theorem getElem?_of_push {α : Type} (xs : Array α) (x : α) {i : Nat} {y : α} (found : xs[i]? = some y) :
    (xs.push x)[i]? = some y := by
  have inside : i < xs.size := by
    apply Classical.byContradiction
    intro outside
    simp [Array.getElem?_eq_none (Nat.le_of_not_lt outside)] at found
  rw [Array.getElem?_push_lt inside, ← found, Array.getElem?_eq_getElem inside]

theorem extends_put (c : Chunk) (b : UInt8) (line : Int64) : c.Extends (c.put b line) :=
  ⟨getElem?_of_push c.code b, getElem?_of_push c.lines line, id, id⟩

theorem extends_putConstant (c : Chunk) (v : Value) : c.Extends (c.putConstant v) :=
  ⟨id, id, getElem?_of_push c.constants v, id⟩

theorem extends_putLoad (c : Chunk) (v : Value) (line : Int64) : c.Extends (c.putLoad v line) :=
  (((extends_putConstant c v).trans (extends_put _ _ _)).trans (extends_put _ _ _)).trans (extends_put _ _ _)

theorem extends_intern (c : Chunk) (s : Text) : c.Extends (c.intern s).2 := by
  refine ⟨id, id, id, ?_⟩
  intro ref text found
  simp only [intern, StringTable.intern]
  split
  · exact found
  · exact getElem?_of_push c.strings.entries s found

end Chunk

namespace StringTable

theorem denotes_valueAt {t : StringTable} {i : Nat} {s : Text} (low : i < UInt32.size) (entry : t.entries[i]? = some s) :
    (valueAt i).Denotes t (.string s) := by
  refine .string ?_ ?_
  · simpa using (UInt32.ofNat i).toNat_lt
  · exact (t.get?_valueAt low).trans entry

end StringTable

namespace Instr

def size : Instr → Nat
  | op _ _ => 1
  | load _ _ => 3

/-- The instructions that refer to the constant pool. -/
def isLoad : Instr → Bool
  | op _ _ => false
  | load _ _ => true

end Instr

namespace Chunk

def HasAt (c : Chunk) (offset : Nat) : Instr → Prop
  | .op op line => c.code[offset]? = some op.byte ∧ c.lines[offset]? = some (Int64.ofNat line)
  | .load l line =>
    c.code[offset]? = some Opcode.constant.byte ∧ c.lines[offset]? = some (Int64.ofNat line) ∧
      ∃ index v, c.operandAt? (offset + 1 : Nat) = some index ∧ c.constants[index.toNat]? = some v ∧ v.Denotes c.strings l

/-- The instructions are found one behind the other from an offset on. -/
def Holds (c : Chunk) : Nat → List Instr → Prop
  | _, [] => True
  | offset, i :: more => c.HasAt offset i ∧ c.Holds (offset + i.size) more

theorem Extends.hasAt {c d : Chunk} (larger : c.Extends d) {offset : Nat} {i : Instr} (has : c.HasAt offset i) :
    d.HasAt offset i := by
  cases i with
  | op op line => exact ⟨larger.code has.1, larger.lines has.2⟩
  | load l line =>
    obtain ⟨byte, known, index, v, operand, constant, denotes⟩ := has
    exact ⟨larger.code byte, larger.lines known, index, v, larger.operandAt? operand, larger.constants constant,
      larger.denotes denotes⟩

theorem Extends.holds {c d : Chunk} (larger : c.Extends d) {offset : Nat} {code : List Instr} (holds : c.Holds offset code) :
    d.Holds offset code := by
  induction code generalizing offset with
  | nil => trivial
  | cons i more ih => exact ⟨larger.hasAt holds.1, ih holds.2⟩

/-- Every byte has its line, and no text was interned without a constant for it. -/
structure Tidy (c : Chunk) : Prop where
  lined : c.lines.size = c.code.size
  texts : c.strings.size ≤ c.constants.size

/-- The second chunk has the code of the first one, and a value for the literal. -/
structure Prepares (c d : Chunk) (v : Value) (l : Literal) : Prop where
  denotes : c.strings.size < UInt32.size → v.Denotes d.strings l
  larger : c.Extends d
  code : d.code = c.code
  lines : d.lines = c.lines
  constants : d.constants = c.constants
  texts : d.strings.size ≤ c.strings.size + 1

theorem append_load (c : Chunk) (l : Literal) (line : Nat) :
    ∃ v d, c.append (.load l line) = d.putLoad v (Int64.ofNat line) ∧ c.Prepares d v l := by
  have plain {v : Value} (denotes : v.Denotes c.strings l) : c.Prepares c v l :=
    ⟨fun _ => denotes, .refl c, rfl, rfl, rfl, Nat.le_succ _⟩
  cases l with
  | nil => exact ⟨.nil, c, rfl, plain .nil⟩
  | bool b => exact ⟨.bool b, c, rfl, plain (.bool b)⟩
  | integer n => exact ⟨.integer n, c, rfl, plain (.integer n)⟩
  | double word => exact ⟨.double word, c, rfl, plain (.double word)⟩
  | string s =>
    have entry := c.strings.intern_get s
    have bound := c.strings.intern_size_le s
    refine ⟨_, _, rfl, ?_, c.extends_intern s, rfl, rfl, rfl, bound⟩
    intro few
    have inside : (c.strings.intern s).1 < (c.strings.intern s).2.size := (Array.getElem?_eq_some_iff.mp entry).1
    have low : (c.strings.intern s).1 < UInt32.size := by omega
    exact StringTable.denotes_valueAt low entry

theorem operand_of_bytes (operand : UInt16) :
    operand.toUInt8.toUInt16 + (operand >>> 8).toUInt8.toUInt16 * 256 = operand := by
  apply UInt16.toNat_inj.mp
  have bound := operand.toNat_lt
  simp [Nat.shiftRight_eq_div_pow]
  omega

theorem putLoad_code (c : Chunk) (v : Value) (line : Int64) :
    (c.putLoad v line).code = ((c.code.push Opcode.constant.byte).push (UInt16.ofNat c.constants.size).toUInt8).push
      (UInt16.ofNat c.constants.size >>> 8).toUInt8 :=
  rfl

theorem putLoad_lines (c : Chunk) (v : Value) (line : Int64) :
    (c.putLoad v line).lines = ((c.lines.push line).push line).push line :=
  rfl

private theorem getElem?_three {α : Type} (xs : Array α) (x y z : α) :
    (((xs.push x).push y).push z)[xs.size]? = some x ∧ (((xs.push x).push y).push z)[xs.size + 1]? = some y ∧
      (((xs.push x).push y).push z)[xs.size + 1 + 1]? = some z := by
  have first : (xs.push x)[xs.size]? = some x := Array.getElem?_push_size
  have second : ((xs.push x).push y)[(xs.push x).size]? = some y := Array.getElem?_push_size
  have third : (((xs.push x).push y).push z)[((xs.push x).push y).size]? = some z := Array.getElem?_push_size
  rw [Array.size_push] at second third
  rw [Array.size_push] at third
  exact ⟨getElem?_of_push _ _ (getElem?_of_push _ _ first), getElem?_of_push _ _ second, third⟩

/-- At an offset stands the instruction that loads a value, all of it with one line. -/
structure LoadsAt (c : Chunk) (offset : Nat) (v : Value) (line : Int64) : Prop where
  opcode : c.code[offset]? = some Opcode.constant.byte
  operand : ∃ index, c.operandAt? (offset + 1 : Nat) = some index ∧ c.constants[index.toNat]? = some v
  lines : c.lines[offset]? = some line ∧ c.lines[offset + 1]? = some line ∧ c.lines[offset + 2]? = some line

theorem Extends.loadsAt {c d : Chunk} (larger : c.Extends d) {offset : Nat} {v : Value} {line : Int64}
    (loads : c.LoadsAt offset v line) : d.LoadsAt offset v line := by
  obtain ⟨opcode, ⟨index, operand, constant⟩, first, second, third⟩ := loads
  exact ⟨larger.code opcode, ⟨index, larger.operandAt? operand, larger.constants constant⟩, larger.lines first,
    larger.lines second, larger.lines third⟩

theorem loadsAt_putLoad {c : Chunk} (v : Value) (line : Int64) (lined : c.lines.size = c.code.size)
    (room : c.constants.size < poolLimit) : (c.putLoad v line).LoadsAt c.code.size v line := by
  have index : (UInt16.ofNat c.constants.size).toNat = c.constants.size := UInt16.toNat_ofNat_of_lt' room
  obtain ⟨byte, low, high⟩ := getElem?_three c.code Opcode.constant.byte (UInt16.ofNat c.constants.size).toUInt8
    (UInt16.ofNat c.constants.size >>> 8).toUInt8
  refine ⟨byte, ⟨UInt16.ofNat c.constants.size, ?_, ?_⟩, ?_⟩
  · simp only [operandAt?, putLoad_code, low, high, operand_of_bytes]
  · rw [index]
    exact Array.getElem?_push_size
  · rw [putLoad_lines, ← lined]
    exact getElem?_three c.lines line line line

theorem hasAt_putLoad {c : Chunk} {v : Value} {l : Literal} (line : Nat) (denotes : v.Denotes c.strings l)
    (lined : c.lines.size = c.code.size) (room : c.constants.size < poolLimit) :
    (c.putLoad v (Int64.ofNat line)).HasAt c.code.size (.load l line) := by
  obtain ⟨opcode, ⟨index, operand, constant⟩, known, _⟩ := loadsAt_putLoad v (Int64.ofNat line) lined room
  exact ⟨opcode, known, index, v, operand, constant, denotes⟩

theorem append_hasAt {c : Chunk} (tidy : c.Tidy) (i : Instr) (room : i.isLoad = true → c.constants.size < poolLimit) :
    (c.append i).HasAt c.code.size i := by
  cases i with
  | op op line =>
    refine ⟨Array.getElem?_push_size, ?_⟩
    rw [← tidy.lined]
    exact Array.getElem?_push_size
  | load l line =>
    have space := room rfl
    have few : c.strings.size < UInt32.size := Nat.lt_of_le_of_lt tidy.texts (Nat.lt_trans space (by decide))
    obtain ⟨v, d, same, ready⟩ := c.append_load l line
    rw [same, ← ready.code]
    apply hasAt_putLoad line (ready.denotes few)
    · rw [ready.lines, ready.code, tidy.lined]
    · rw [ready.constants]
      exact space

theorem extends_append (c : Chunk) (i : Instr) : c.Extends (c.append i) := by
  cases i with
  | op op line => exact extends_put c _ _
  | load l line =>
    obtain ⟨v, d, same, ready⟩ := c.append_load l line
    exact same ▸ ready.larger.trans (extends_putLoad d _ _)

theorem append_size (c : Chunk) (i : Instr) : (c.append i).code.size = c.code.size + i.size := by
  cases i with
  | op op line => exact Array.size_push _
  | load l line =>
    obtain ⟨v, d, same, ready⟩ := c.append_load l line
    simp [same, putLoad_code, ready.code, Instr.size]

theorem append_constants (c : Chunk) (i : Instr) :
    (c.append i).constants.size = c.constants.size + (if i.isLoad then 1 else 0) := by
  cases i with
  | op op line => rfl
  | load l line =>
    obtain ⟨v, d, same, ready⟩ := c.append_load l line
    rw [same, ← ready.constants]
    exact Array.size_push _

theorem append_tidy {c : Chunk} (tidy : c.Tidy) (i : Instr) : (c.append i).Tidy := by
  cases i with
  | op op line => exact ⟨(Array.size_push _).trans (tidy.lined ▸ (Array.size_push _).symm), tidy.texts⟩
  | load l line =>
    obtain ⟨v, d, same, ready⟩ := c.append_load l line
    rw [same]
    refine ⟨by simp [putLoad_code, putLoad_lines, ready.code, ready.lines, tidy.lined], ?_⟩
    have pooled : (d.putLoad v (Int64.ofNat line)).constants.size = d.constants.size + 1 := Array.size_push _
    rw [pooled, ready.constants]
    exact Nat.le_trans ready.texts (Nat.succ_le_succ tidy.texts)

theorem holds_foldl (code : List Instr) {c : Chunk} (tidy : c.Tidy)
    (room : c.constants.size + code.countP Instr.isLoad ≤ poolLimit) :
    (code.foldl append c).Holds c.code.size code ∧ (code.foldl append c).Tidy ∧ c.Extends (code.foldl append c) := by
  induction code generalizing c with
  | nil => exact ⟨trivial, tidy, .refl c⟩
  | cons i more ih =>
    rw [List.countP_cons] at room
    obtain ⟨holds, tidy', larger⟩ := ih (append_tidy tidy i) (by rw [append_constants]; omega)
    have space : i.isLoad = true → c.constants.size < poolLimit := by
      intro loads
      rw [if_pos loads] at room
      omega
    exact ⟨⟨larger.hasAt (append_hasAt tidy i space), append_size c i ▸ holds⟩, tidy', (extends_append c i).trans larger⟩

/-- The code of a program is found in its chunk from the first byte on. -/
theorem ofCode_holds {code : List Instr} (room : code.countP Instr.isLoad ≤ poolLimit) :
    (ofCode code).Holds 0 code ∧ (ofCode code).Tidy := by
  have empty : ({} : Chunk).Tidy := ⟨rfl, Nat.le_refl _⟩
  obtain ⟨holds, tidy, _⟩ := holds_foldl code empty (by simpa using room)
  exact ⟨holds, tidy⟩

end Chunk

end ExprLang
