import ExprLang.Proofs.CodeWalks
import ExprLang.Proofs.PostOrder
import ExprLang.Proofs.PrintedIntegers

/-! The line breaks of a listing. Names, numbers and columns have none, so that an instruction is listed on one line unless it
shows a string that is broken itself. A compiled program loads each of its literals once; hence the listing has one line for
each instruction, and one more for every line break between the quotes of the source. -/

namespace ExprLang

namespace Text

def breaks (t : Text) : Nat :=
  t.count newline

@[simp] theorem breaks_append (s t : Text) : breaks (s ++ t) = breaks s + breaks t :=
  List.count_append

theorem breaks_eq_zero_iff {t : Text} : breaks t = 0 ↔ newline ∉ t :=
  List.count_eq_zero

theorem breaks_padLeft (width : Nat) {fill : UInt8} (inside : fill ≠ newline) (t : Text) :
    breaks (padLeft width fill t) = breaks t := by
  rw [padLeft, breaks_append, Nat.add_eq_right, breaks_eq_zero_iff]
  exact fun member => inside (List.eq_of_mem_replicate member).symm

theorem breaks_padRight (width : Nat) {fill : UInt8} (inside : fill ≠ newline) (t : Text) :
    breaks (padRight width fill t) = breaks t := by
  rw [padRight, breaks_append, Nat.add_eq_left, breaks_eq_zero_iff]
  exact fun member => inside (List.eq_of_mem_replicate member).symm

@[simp] theorem breaks_ofNat (n : Nat) : breaks (ofNat n) = 0 := by
  rw [breaks_eq_zero_iff]
  intro member
  exact absurd ((isNumeral_ofNat n).2 newline member) (by decide)

@[simp] theorem breaks_ofInt (z : Int) : breaks (ofInt z) = 0 := by
  have sign : breaks (utf8 "-") = 0 := by decide
  unfold ofInt
  split
  · rw [breaks_append, sign, breaks_ofNat]
  · exact breaks_ofNat _

theorem breaks_lines (ts : List Text) : breaks (lines ts) = ts.length + (ts.map breaks).sum := by
  induction ts with
  | nil => rfl
  | cons t ts ih =>
    have ending : breaks [newline] = 1 := by decide
    have split : lines (t :: ts) = t ++ [newline] ++ lines ts := rfl
    rw [split, breaks_append, breaks_append, ending, ih]
    simp only [List.length_cons, List.map_cons, List.sum_cons]
    omega

end Text

open Text (breaks)

section Numbers

namespace Decimal

variable {digits : Text} (whole : Text.newline ∉ digits) (power : Int)
include whole

theorem newline_not_mem_scientific : Text.newline ∉ scientific digits power := by
  have point : Text.newline ∉ utf8 "." := by decide
  have sign : Text.newline ∉ (if power < 0 then utf8 "e-" else utf8 "e+") := by split <;> decide
  have exponent : Text.newline ∉ (Text.ofNat power.natAbs).padLeft 2 0x30 := by
    rw [← Text.breaks_eq_zero_iff, Text.breaks_padLeft 2 (by decide), Text.breaks_ofNat]
  rcases digits with _ | ⟨d, _ | ⟨e, more⟩⟩ <;> simp_all [scientific]

theorem newline_not_mem_positional : Text.newline ∉ positional digits power := by
  have point : Text.newline ∉ utf8 "." := by decide
  have front : Text.newline ∉ utf8 "0." := by decide
  have zero : Text.newline ≠ 0x30 := by decide
  have start (n : Nat) : Text.newline ∉ digits.take n := fun member => whole (List.mem_of_mem_take member)
  have rest (n : Nat) : Text.newline ∉ digits.drop n := fun member => whole (List.mem_of_mem_drop member)
  simp only [positional]
  split
  · simp [front, zero, whole]
  · split
    · simp [Text.padRight, zero, whole]
    · simp [point, start, rest]

end Decimal

theorem Binary64.newline_not_mem_text (word : UInt64) : Text.newline ∉ text word := by
  have digits (d : Decimal) : Text.newline ∉ d.text := by
    have whole := Text.breaks_eq_zero_iff.mp (Text.breaks_ofNat d.digits)
    simp only [Decimal.text]
    split
    · exact Decimal.newline_not_mem_scientific whole _
    · exact Decimal.newline_not_mem_positional whole _
  have sign : Text.newline ∉ (if isNegative word then utf8 "-" else []) := by split <;> decide
  have zero : Text.newline ∉ utf8 "0" := by decide
  simp only [text]
  generalize (if isNegative word then utf8 "-" else []) = front at sign
  split
  · decide
  · split
    · split <;> decide
    · split
      · simp [sign, zero]
      · simp [sign, digits]

end Numbers

theorem Literal.breaks_text (l : Literal) : breaks l.text = (l.text?.map breaks).getD 0 := by
  cases l with
  | nil => decide
  | bool b => cases b <;> decide
  | integer n => exact Text.breaks_ofInt _
  | double word => exact Text.breaks_eq_zero_iff.mpr (Binary64.newline_not_mem_text word)
  | string s => rfl

namespace Chunk

theorem breaks_lineColumn (c : Chunk) (offset : Nat) : breaks (c.lineColumn offset) = 0 := by
  unfold lineColumn
  split
  · decide
  · rw [Text.breaks_padLeft 4 (by decide), Text.breaks_ofInt]

variable {c : Chunk} {offset : Nat}

/-- The columns before the operation have no line breaks. -/
theorem breaks_instructionAt {b : UInt8} (here : c.code[offset]? = some b) :
    breaks (c.instructionAt offset).1 = breaks (c.operationAt b offset).1 := by
  have space : breaks (utf8 " ") = 0 := by decide
  show breaks (c.instructionAt (.ofNat offset)).1 = _
  simp only [instructionAt, here, Text.breaks_append, Text.breaks_padLeft 4 (show (0x30 : UInt8) ≠ Text.newline by decide),
    Text.breaks_ofNat, space, breaks_lineColumn]
  omega

end Chunk

theorem Opcode.byte_inj {op op' : Opcode} (same : op.byte = op'.byte) : op = op' := by
  have decoded := congrArg ofByte? same
  rwa [ofByte?_byte, ofByte?_byte, Option.some_inj] at decoded

theorem Opcode.breaks_nameOfByte (op : Opcode) : breaks (nameOfByte op.byte) = 0 := by
  rw [nameOfByte, ofByte?_byte]
  cases op <;> decide

namespace Instr

/-- The line breaks in what an instruction shows. -/
def breaks : Instr → Nat
  | op _ _ => 0
  | load l _ => Text.breaks l.text

/-- No instruction but a load has an operand. -/
def Proper : Instr → Prop
  | op opcode _ => opcode ≠ .constant
  | load _ _ => True

/-- The line breaks that instructions show are those of the texts that they load. -/
theorem sum_breaks (code : List Instr) :
    (code.map breaks).sum = (((code.filterMap literal?).filterMap Literal.text?).map Text.breaks).sum := by
  induction code with
  | nil => rfl
  | cons i code ih =>
    rw [List.map_cons, List.sum_cons, ih]
    cases i with
    | op opcode line => exact Nat.zero_add _
    | load l line =>
      have shown := l.breaks_text
      cases text : l.text? with
      | none => simp_all [breaks, literal?]
      | some s => simp_all [breaks, literal?]

end Instr

section Program

theorem Expr.proper_postOrder (e : Expr) : ∀ i ∈ e.postOrder, i.Proper := by
  induction e with
  | literal l line =>
    cases l with
    | bool b => cases b <;> simp [postOrder, Instr.Proper]
    | _ => simp [postOrder, Instr.Proper]
  | unary op line operand ih => cases op <;> simpa [postOrder, Instr.Proper, or_imp, forall_and] using ih
  | binary op line left right ihl ihr =>
    have own : ∀ i ∈ op.instructions line, i.Proper := by
      cases op <;> simp [BinaryOp.instructions, Instr.Proper]
    intro i member
    rcases List.mem_append.mp member with member | member
    · rcases List.mem_append.mp member with member | member
      · exact ihl i member
      · exact ihr i member
    · exact own i member

theorem Statement.proper_postOrder (ss : List Statement) : ∀ i ∈ postOrder ss, i.Proper := by
  fun_induction postOrder ss with
  | case1 => simp
  | case2 s => exact s.expr.proper_postOrder
  | case3 s more _ ih =>
    intro i member
    rcases List.mem_append.mp member with member | member
    · exact s.expr.proper_postOrder i member
    · rcases List.mem_cons.mp member with rfl | member
      · simp [Instr.Proper]
      · exact ih i member

theorem Program.proper_code (p : Program) : ∀ i ∈ p.code, i.Proper := by
  rw [p.code_eq, postOrder]
  split
  · simp [Instr.Proper]
  · intro i member
    rcases List.mem_append.mp member with member | member
    · exact Statement.proper_postOrder _ i member
    · obtain rfl := List.mem_singleton.mp member
      simp [Instr.Proper]

end Program

namespace Chunk
variable {c : Chunk} {offset : Nat}

/-- An instruction of the code as it is listed. -/
theorem HasAt.listed {i : Instr} (has : c.HasAt offset i) (proper : i.Proper) :
    offset < c.code.size ∧ breaks (c.instructionAt offset).1 = i.breaks ∧ (c.instructionAt offset).2 = offset + i.size := by
  cases i with
  | op op line =>
    have here := has.1
    have inside : offset < c.code.size := (Array.getElem?_eq_some_iff.mp here).1
    have plain : op.byte ≠ Opcode.constant.byte := fun same => proper (Opcode.byte_inj same)
    have length := Opcode.lengthOfByte_plain plain
    refine ⟨inside, ?_, ?_⟩
    · rw [breaks_instructionAt here, operationAt, if_neg plain]
      exact op.breaks_nameOfByte
    · rw [instructionAt_next here (by omega), length]
      rfl
  | load l line =>
    obtain ⟨here, _, index, v, operand, constant, denotes⟩ := has
    have room := operandAt?_inside operand
    have length := Opcode.lengthOfByte_constant
    have space : breaks (utf8 " ") = 0 := by decide
    have quote : breaks (utf8 "'") = 0 := by decide
    have opening : breaks (utf8 " '") = 0 := by decide
    have blank : (0x20 : UInt8) ≠ Text.newline := by decide
    refine ⟨by omega, ?_, ?_⟩
    · rw [breaks_instructionAt here]
      simp only [operationAt, if_pos, operand, constant, denotes.format_eq, Text.breaks_append, Text.breaks_padRight _ blank,
        Text.breaks_padLeft _ blank, Opcode.breaks_nameOfByte, Text.breaks_ofNat, space, quote, opening]
      exact Nat.zero_add _
    · rw [instructionAt_next here (by omega), length]
      rfl

theorem Holds.listed {code : List Instr} (holds : c.Holds offset code) (proper : ∀ i ∈ code, i.Proper)
    (ends : offset + (code.map Instr.size).sum = c.code.size) : (c.listingFrom offset).map breaks = code.map Instr.breaks := by
  induction code generalizing offset with
  | nil =>
    have outside : ¬ offset < c.code.size := by simp_all
    rw [listingFrom, c.listingInto_outside #[] outside]
    rfl
  | cons i code ih =>
    obtain ⟨first, others⟩ := List.forall_mem_cons.mp proper
    obtain ⟨inside, shown, next⟩ := holds.1.listed first
    rw [List.map_cons, List.sum_cons] at ends
    rw [c.listingFrom_inside inside, next, List.map_cons, shown, ih holds.2 others (by omega), List.map_cons]

theorem ofCode_size (code : List Instr) : (ofCode code).code.size = (code.map Instr.size).sum := by
  have sizes (c : Chunk) : (code.foldl append c).code.size = c.code.size + (code.map Instr.size).sum := by
    induction code generalizing c with
    | nil => rfl
    | cons i code ih =>
      rw [List.foldl_cons, ih, append_size, List.map_cons, List.sum_cons, Nat.add_assoc]
  rw [ofCode, sizes]
  exact Nat.zero_add _

end Chunk

/-- The lines of the listing of a program break where the strings of the source do. -/
theorem compiled_listing_breaks {source : Text} {c : Chunk} (compiled : compile source = .ok c) :
    (c.listing.map breaks).sum = (((Token.all source).filter (·.kind = .string)).map fun t => breaks t.quoted).sum := by
  obtain ⟨p, parsed, rfl⟩ := parse_of_compile compiled
  obtain ⟨spelt, _, room⟩ := Program.parse_spelt parsed
  obtain ⟨holds, _⟩ := Chunk.ofCode_holds (Nat.le_trans spelt.loads_le room)
  have listed := holds.listed p.proper_code (by rw [Chunk.ofCode_size, Nat.zero_add])
  rw [show (Chunk.ofCode p.code).listing = (Chunk.ofCode p.code).listingFrom 0 from rfl, listed, Instr.sum_breaks,
    spelt.literals, Token.texts_literals, List.map_map]
  rfl

/-- The listing of a program has a line for each instruction, and one more for each line break in the strings of the source. So
there is one line for each instruction exactly if no string is broken. -/
theorem listing_line_per_instruction_iff {source : Text} {c : Chunk} (compiled : compile source = .ok c) :
    breaks (c.listingText []) =
      c.countInstructions + (((Token.all source).filter (·.kind = .string)).map fun t => breaks t.quoted).sum ∧
    (breaks (c.listingText []) = c.countInstructions ↔
      ∀ t ∈ Token.all source, t.kind = .string → Text.newline ∉ t.quoted) ∧
    (breaks (c.listingText []) = c.countInstructions ↔ ∀ line ∈ c.listing, Text.newline ∉ line) := by
  have total : breaks (c.listingText []) = c.countInstructions + (c.listing.map breaks).sum := by
    rw [← c.length_listing, ← Text.breaks_lines]
    rfl
  have strings := compiled_listing_breaks compiled
  refine ⟨by rw [total, strings], ?_, ?_⟩
  · rw [total, strings, Nat.add_eq_left, List.sum_eq_zero_iff, List.forall_mem_map]
    simp [Text.breaks_eq_zero_iff]
  · rw [total, Nat.add_eq_left, List.sum_eq_zero_iff, List.forall_mem_map]
    simp only [Text.breaks_eq_zero_iff]

/-- A string that is one line break: two instructions on three lines. -/
theorem broken_string_adds_line :
    ∃ c, compile [0x22, 0x0A, 0x22] = .ok c ∧ c.countInstructions = 2 ∧ breaks (c.listingText []) = 3 := by
  have parsed : Program.parse [0x22, 0x0A, 0x22] = .ok ⟨[⟨.literal (.string [0x0A]) 2, 2⟩], 2⟩ := by cbv
  have compiled : compile [0x22, 0x0A, 0x22] = .ok (.ofCode [.load (.string [0x0A]) 2, .op .ret 2]) :=
    congrArg (Except.map _) parsed
  have tokens : Token.all [0x22, 0x0A, 0x22] = [⟨.string, [0x22, 0x0A, 0x22], 2⟩, ⟨.eof, [], 2⟩] := by cbv
  have two : (Chunk.ofCode [.load (.string [0x0A]) 2, .op .ret 2]).countInstructions = 2 := by cbv
  refine ⟨_, compiled, two, ?_⟩
  rw [(listing_line_per_instruction_iff compiled).1, two, tokens]
  decide

end ExprLang
