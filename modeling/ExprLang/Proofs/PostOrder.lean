import ExprLang.Proofs.Shipping

/-! What the chunk of a compiled program consists of. Its code is the program in post-order, each byte with the line of the
token that it comes from; its constants are the literals of the source in their order, and its strings are the texts
among these, each where it first occurs. -/

namespace ExprLang

section Instructions

/-- The instructions of an operator, behind those of its operands. Three comparisons deny another one. -/
def BinaryOp.instructions (line : Nat) : BinaryOp → List Instr
  | add => [.op .add line]
  | subtract => [.op .subtract line]
  | multiply => [.op .multiply line]
  | divide => [.op .divide line]
  | equal => [.op .equal line]
  | notEqual => [.op .equal line, .op .not line]
  | greater => [.op .greater line]
  | greaterEqual => [.op .less line, .op .not line]
  | less => [.op .less line]
  | lessEqual => [.op .greater line, .op .not line]

/-- The instructions of an expression: those of its operands, then its own. -/
def Expr.postOrder : Expr → List Instr
  | literal .nil line => [.op .pushNil line]
  | literal (.bool false) line => [.op .pushFalse line]
  | literal (.bool true) line => [.op .pushTrue line]
  | literal l line => [.load l line]
  | unary .negate line operand => operand.postOrder ++ [.op .negate line]
  | unary .not line operand => operand.postOrder ++ [.op .not line]
  | binary op line left right => left.postOrder ++ right.postOrder ++ op.instructions line

/-- The instructions of statements. Between two of them the value of the first is dropped. -/
def Statement.postOrder : List Statement → List Instr
  | [] => []
  | [s] => s.expr.postOrder
  | s :: more => s.expr.postOrder ++ .op .pop s.endLine :: postOrder more

/-- The instructions of a program. One without statements returns nil. -/
def Program.postOrder (p : Program) : List Instr :=
  match p.statements with
  | [] => [.op .pushNil p.endLine, .op .ret p.endLine]
  | ss => Statement.postOrder ss ++ [.op .ret p.endLine]

theorem BinaryOp.instructions_eq (op : BinaryOp) (line : Nat) : op.opcodes.map (Instr.op · line) = op.instructions line := by
  cases op <;> rfl

theorem Expr.code_eq (e : Expr) (more : List Instr) : e.code more = e.postOrder ++ more := by
  induction e generalizing more with
  | literal l line =>
    cases l with
    | bool b => cases b <;> rfl
    | _ => rfl
  | unary op line operand ih =>
    rw [code, ih]
    cases op <;> simp [postOrder, UnaryOp.opcode]
  | binary op line left right ihl ihr =>
    rw [code, ihl, ihr, BinaryOp.instructions_eq, postOrder]
    simp only [List.append_assoc]

theorem Program.codeOf?_eq (s : Statement) (more : List Statement) (last : List Instr) :
    codeOf? (s :: more) last = some (Statement.postOrder (s :: more) ++ last) := by
  induction more generalizing s with
  | nil => rw [codeOf?_cons, Expr.code_eq]; rfl
  | cons t more ih =>
    rw [codeOf?_cons, ih, Expr.code_eq]
    simp [Statement.postOrder]

theorem Program.code_eq (p : Program) : p.code = p.postOrder := by
  obtain ⟨statements, endLine⟩ := p
  cases statements with
  | nil => rfl
  | cons s more =>
    simp only [code, codeOf?_eq, Option.getD_some]
    rfl

end Instructions

section Bytes

namespace Instr

def line : Instr → Nat
  | op _ line | load _ line => line

/-- The bytes of an instruction. One that loads a constant has the number of this behind it, low byte first. -/
def bytes (number : Nat) : Instr → List UInt8
  | op opcode _ => [opcode.byte]
  | load _ _ => [Opcode.constant.byte, UInt8.ofNat (number % 256), UInt8.ofNat (number / 256)]

/-- The bytes of instructions, each with its line. The constants that they load are numbered one after the other. -/
def image (number : Nat) : List Instr → List (UInt8 × Int64)
  | [] => []
  | i :: more =>
    (i.bytes number).map (·, Int64.ofNat i.line) ++ image (number + if i.isLoad then 1 else 0) more

theorem image_append (code more : List Instr) (number : Nat) :
    image number (code ++ more) = image number code ++ image (number + code.countP isLoad) more := by
  induction code generalizing number with
  | nil => rfl
  | cons i code ih =>
    rw [List.cons_append, image, ih, image, List.countP_cons, List.append_assoc, Nat.add_assoc,
      Nat.add_comm (code.countP isLoad)]

end Instr

end Bytes

section Literals

/-- The value of a literal. A string is known by the place of its text in the table. -/
def Literal.value (strings : StringTable) : Literal → Value
  | nil => .nil
  | bool b => .bool b
  | integer n => .integer n
  | double word => .double word
  | string s => StringTable.valueAt (strings.entries.toList.idxOf s)

def Literal.text? : Literal → Option Text
  | string s => some s
  | _ => none

/-- Texts that are added to a table move no other text. -/
theorem Literal.value_intern {t : StringTable} {l : Literal} (known : ∀ u, l.text? = some u → u ∈ t.entries.toList) (s : Text) :
    l.value (t.intern s).2 = l.value t := by
  cases l with
  | string u =>
    have there := known u rfl
    by_cases old : s ∈ t.entries.toList
    · rw [(StringTable.intern_known old).2]
    · rw [value, value, (StringTable.intern_fresh old).2, List.idxOf_append_of_mem there]
  | _ => rfl

end Literals

namespace Chunk

/-- The chunk holds the given instructions and what they load, and nothing else. -/
structure Renders (c : Chunk) (instrs : List Instr) : Prop where
  code : c.code.toList = (Instr.image 0 instrs).map Prod.fst
  lines : c.lines.toList = (Instr.image 0 instrs).map Prod.snd
  constants : c.constants.toList = (instrs.filterMap Instr.literal?).map (Literal.value c.strings)
  texts : c.strings.entries.toList = ((instrs.filterMap Instr.literal?).filterMap Literal.text?).eraseDups

theorem Renders.empty : ({} : Chunk).Renders [] :=
  ⟨rfl, rfl, rfl, rfl⟩

theorem length_literals (instrs : List Instr) : (instrs.filterMap Instr.literal?).length = instrs.countP Instr.isLoad := by
  induction instrs with
  | nil => rfl
  | cons i more ih =>
    cases i with
    | op op line => exact ih
    | load l line =>
      rw [List.countP_cons_of_pos rfl, ← ih]
      rfl

/-- The chunk with the text of a literal in its table. -/
def prepared (c : Chunk) : Literal → Chunk
  | .string s => (c.intern s).2
  | _ => c

theorem append_prepared (c : Chunk) (l : Literal) (line : Nat) :
    c.append (.load l line) = (c.prepared l).putLoad (l.value (c.prepared l).strings) (Int64.ofNat line) := by
  cases l with
  | string s =>
    have place := c.strings.intern_index s
    simp only [append, prepared, Literal.value, intern, place]
  | _ => rfl

theorem prepared_code (c : Chunk) (l : Literal) :
    (c.prepared l).code = c.code ∧ (c.prepared l).lines = c.lines ∧ (c.prepared l).constants = c.constants := by
  cases l <;> exact ⟨rfl, rfl, rfl⟩

private theorem operand_bytes (n : Nat) :
    (UInt16.ofNat n).toUInt8 = UInt8.ofNat (n % 256) ∧ (UInt16.ofNat n >>> 8).toUInt8 = UInt8.ofNat (n / 256) := by
  constructor <;> apply UInt8.toNat_inj.mp
  · simp
  · simp [Nat.shiftRight_eq_div_pow]
    omega

theorem append_bytes (c : Chunk) (i : Instr) : (c.append i).code.toList = c.code.toList ++ i.bytes c.constants.size := by
  cases i with
  | op op line => exact Array.toList_push
  | load l line =>
    obtain ⟨code, _, constants⟩ := c.prepared_code l
    obtain ⟨low, high⟩ := operand_bytes c.constants.size
    rw [append_prepared, putLoad_code, code, constants, low, high]
    simp [Instr.bytes]

theorem append_lines (c : Chunk) (i : Instr) (number : Nat) :
    (c.append i).lines.toList = c.lines.toList ++ (i.bytes number).map fun _ => Int64.ofNat i.line := by
  cases i with
  | op op line => exact Array.toList_push
  | load l line =>
    obtain ⟨_, lines, _⟩ := c.prepared_code l
    rw [append_prepared, putLoad_lines, lines]
    simp [Instr.bytes, Instr.line]

namespace Renders

variable {c : Chunk} {instrs : List Instr} (renders : c.Renders instrs)
include renders

theorem pool : c.constants.size = instrs.countP Instr.isLoad := by
  rw [← length_literals, ← Array.length_toList, renders.constants, List.length_map]

theorem known {l : Literal} {s : Text} (loaded : l ∈ instrs.filterMap Instr.literal?) (text : l.text? = some s) :
    s ∈ c.strings.entries.toList := by
  rw [renders.texts, List.mem_eraseDups]
  exact List.mem_filterMap.mpr ⟨l, loaded, text⟩

/-- Interning the text of a further literal changes no constant. -/
theorem constants_prepared (l : Literal) :
    c.constants.toList = (instrs.filterMap Instr.literal?).map (Literal.value (c.prepared l).strings) := by
  rw [renders.constants]
  cases l with
  | string s =>
    apply List.map_congr_left
    intro l loaded
    exact (Literal.value_intern (fun u text => renders.known loaded text) s).symm
  | _ => rfl

theorem texts_prepared (l : Literal) :
    (c.prepared l).strings.entries.toList =
      ((instrs.filterMap Instr.literal? ++ [l]).filterMap Literal.text?).eraseDups := by
  rw [List.filterMap_append]
  cases l with
  | string s => exact StringTable.intern_eraseDups renders.texts s
  | _ =>
    show _ = (_ ++ []).eraseDups
    rw [List.append_nil]
    exact renders.texts

theorem append (i : Instr) : (c.append i).Renders (instrs ++ [i]) := by
  have image : Instr.image 0 (instrs ++ [i]) =
      Instr.image 0 instrs ++ (i.bytes c.constants.size).map (·, Int64.ofNat i.line) := by
    rw [Instr.image_append, Nat.zero_add, ← renders.pool, Instr.image, Instr.image, List.append_nil]
  have code : (c.append i).code.toList = (Instr.image 0 (instrs ++ [i])).map Prod.fst := by
    rw [append_bytes, renders.code, image, List.map_append, List.map_map]
    simp [Function.comp_def]
  have lines : (c.append i).lines.toList = (Instr.image 0 (instrs ++ [i])).map Prod.snd := by
    rw [append_lines c i c.constants.size, renders.lines, image, List.map_append, List.map_map]
    rfl
  refine ⟨code, lines, ?_, ?_⟩ <;> rw [List.filterMap_append]
  · cases i with
    | op op line =>
      show _ = List.map _ (_ ++ [])
      rw [List.append_nil]
      exact renders.constants
    | load l line =>
      have pushed : (c.append (.load l line)).constants = c.constants.push (l.value (c.prepared l).strings) := by
        rw [append_prepared, ← (c.prepared_code l).2.2]
        rfl
      have strings : (c.append (.load l line)).strings = (c.prepared l).strings := by
        rw [append_prepared]
        rfl
      rw [pushed, strings, Array.toList_push, renders.constants_prepared l, List.map_append]
      rfl
  · cases i with
    | op op line =>
      show _ = (List.filterMap _ (_ ++ [])).eraseDups
      rw [List.append_nil]
      exact renders.texts
    | load l line =>
      rw [append_prepared]
      exact renders.texts_prepared l

theorem foldl (more : List Instr) : (more.foldl Chunk.append c).Renders (instrs ++ more) := by
  induction more generalizing c instrs with
  | nil => simpa using renders
  | cons i more ih =>
    have next := ih (renders.append i)
    rwa [List.append_assoc] at next

end Renders

theorem ofCode_renders (instrs : List Instr) : (ofCode instrs).Renders instrs :=
  Renders.empty.foldl instrs

/-- A load is followed by the number of loads before it. -/
theorem Renders.operand {c : Chunk} {before behind : List Instr} {l : Literal} {line : Nat}
    (renders : c.Renders (before ++ .load l line :: behind)) :
    c.code[(Instr.image 0 before).length]? = some Opcode.constant.byte ∧
      c.operandAt? ((Instr.image 0 before).length + 1 : Nat) = some (UInt16.ofNat (before.countP Instr.isLoad)) := by
  have code := renders.code
  rw [Instr.image_append, Instr.image, List.map_append, List.map_append] at code
  have byte (k : Nat) (found : k < 3) : c.code[(Instr.image 0 before).length + k]? =
      ((Instr.load l line).bytes (before.countP Instr.isLoad))[k]? := by
    rw [← Array.getElem?_toList, code, List.getElem?_append_right (by simp), List.getElem?_append_left]
    · simp [Function.comp_def]
    · simpa [Instr.bytes] using found
  obtain ⟨low, high⟩ := operand_bytes (before.countP Instr.isLoad)
  have first : c.code[(Instr.image 0 before).length + 1]? = some (UInt16.ofNat (before.countP Instr.isLoad)).toUInt8 := by
    rw [byte 1 (by decide), low]
    rfl
  have second : c.code[(Instr.image 0 before).length + 1 + 1]? =
      some (UInt16.ofNat (before.countP Instr.isLoad) >>> 8).toUInt8 := by
    rw [byte 2 (by decide), high]
    rfl
  refine ⟨byte 0 (by decide), ?_⟩
  simp only [operandAt?, first, second, operand_of_bytes]

end Chunk

theorem Literal.ofToken_eq {t : Token} (valued : t.Valued) : ofToken t = .ok (denoted t) := by
  obtain ⟨l, value⟩ := valued
  rw [value, denoted_eq value]

theorem Literal.denoted_text? (t : Token) : (denoted t).text? = if t.kind = .string then some t.quoted else none := by
  split
  next kind => rw [(denoted_eq_string_iff t t.quoted).mpr ⟨kind, rfl⟩, text?]
  next other =>
    cases same : denoted t with
    | string s => exact absurd ((denoted_eq_string_iff t s).mp same).1 other
    | _ => rfl

theorem Token.texts_literals (ts : List Token) :
    (literals ts).filterMap Literal.text? = (ts.filter (·.kind = .string)).map quoted := by
  rw [literals, List.filterMap_map, List.filterMap_filter, ← List.filterMap_eq_map, List.filterMap_filter]
  apply List.filterMap_congr
  intro t _
  by_cases text : t.kind = .string
  · simp [Literal.denoted_text?, text, isPooled]
  · simp [Literal.denoted_text?, text]

/-- The chunk of a program is its translation in post-order. Every byte has the line of its token, and the constants that
it loads are numbered in the order of the source, where equal texts share one string but no constant. -/
theorem compiled_post_order {source : Text} {c : Chunk} (compiled : compile source = .ok c) :
    ∃ p, Program.Spelt (Token.all source) p ∧ (∀ q, Program.Spelt (Token.all source) q → q = p) ∧
      c.code.toList = (Instr.image 0 p.postOrder).map Prod.fst ∧ c.lines.toList = (Instr.image 0 p.postOrder).map Prod.snd ∧
      (∀ before l line behind, p.postOrder = before ++ .load l line :: behind →
        c.code[(Instr.image 0 before).length]? = some Opcode.constant.byte ∧
        ∃ operand, c.operandAt? ((Instr.image 0 before).length + 1 : Nat) = some operand ∧
          operand.toNat = before.countP Instr.isLoad) ∧
      ((Token.all source).filter Token.isPooled).map (fun t => (Literal.ofToken t).map (Literal.value c.strings)) =
        c.constants.toList.map .ok ∧
      c.strings.entries.toList = (((Token.all source).filter (·.kind = .string)).map Token.quoted).eraseDups := by
  unfold compile at compiled
  cases parsed : Program.parse source with
  | error ds => simp [parsed, Except.map] at compiled
  | ok p =>
    obtain rfl : Chunk.ofCode p.code = c := by simpa [parsed, Except.map] using compiled
    obtain ⟨spelt, valued, room⟩ := Program.parse_spelt parsed
    have renders := Chunk.ofCode_renders p.code
    have literals := spelt.literals
    refine ⟨p, spelt, ?_, ?_, ?_, ?_, ?_, ?_⟩
    · intro q other
      exact Except.ok.inj ((Program.parse_of_spelt other valued room).symm.trans parsed)
    · rw [← p.code_eq, renders.code]
    · rw [← p.code_eq, renders.lines]
    · intro before l line behind split
      rw [← p.code_eq] at split
      rw [split] at renders
      -- The pool has room for all literals of the source, so that the number of a load fits into its two bytes.
      have loads : before.countP Instr.isLoad < p.code.countP Instr.isLoad := by
        rw [split, List.countP_append, List.countP_cons_of_pos rfl]
        omega
      have few : before.countP Instr.isLoad < UInt16.size := Nat.lt_of_lt_of_le loads (Nat.le_trans spelt.loads_le room)
      rw [split]
      obtain ⟨opcode, operand⟩ := renders.operand
      exact ⟨opcode, _, operand, UInt16.toNat_ofNat_of_lt' few⟩
    · rw [renders.constants, literals, Token.literals, List.map_map, List.map_map]
      apply List.map_congr_left
      intro t pooled
      rw [Literal.ofToken_eq (valued t (List.mem_filter.mp pooled).1)]
      rfl
    · rw [renders.texts, literals, Token.texts_literals]

theorem comparisons_in_post_order :
    ∃ c, compile (utf8 "(\"b\" != \"a\");\n1 <= \"b\"") = .ok c ∧
      c.code.toList =
        [Opcode.constant.byte, 0, 0, Opcode.constant.byte, 1, 0, Opcode.equal.byte, Opcode.not.byte, Opcode.pop.byte,
          Opcode.constant.byte, 2, 0, Opcode.constant.byte, 3, 0, Opcode.greater.byte, Opcode.not.byte,
          Opcode.ret.byte] ∧
      c.lines.toList = List.replicate 9 1 ++ List.replicate 9 2 ∧
      c.strings.entries.toList = [utf8 "b", utf8 "a"] := by
  have parsed : Program.parse (utf8 "(\"b\" != \"a\");\n1 <= \"b\"") = .ok ⟨[
      ⟨.binary .notEqual 1 (.literal (.string [98]) 1) (.literal (.string [97]) 1), 1⟩,
      ⟨.binary .lessEqual 2 (.literal (.integer 1) 2) (.literal (.string [98]) 2), 2⟩], 2⟩ := by
    cbv
  have compiled : compile (utf8 "(\"b\" != \"a\");\n1 <= \"b\"") = .ok _ := congrArg (Except.map _) parsed
  obtain ⟨p, _, unique, code, lines, _, _, texts⟩ := compiled_post_order compiled
  obtain rfl := unique _ (Program.parse_spelt parsed).1
  refine ⟨_, compiled, ?_, ?_, ?_⟩
  · rw [code]
    decide
  · rw [lines]
    decide
  · rw [texts]
    cbv

end ExprLang
