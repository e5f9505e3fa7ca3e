import ExprLang.Proofs.Execution

/-! A traced run against the listing of its chunk. The machine and the listing decode the code each in their own way, but
wherever the machine goes on, it goes on where the listing does. So the instructions of a trace are the first ones of the
listing, and above each of them stands the stack that the machine had before it. -/

namespace ExprLang

theorem Opcode.lengthOfByte_constant : lengthOfByte constant.byte = 3 := rfl

theorem Opcode.byte_of_ofByte? {byte : UInt8} {op : Opcode} (decoded : ofByte? byte = some op) : op.byte = byte := by
  simpa using List.find?_some decoded

theorem Opcode.lengthOfByte_plain {byte : UInt8} (plain : byte ≠ constant.byte) : lengthOfByte byte = 1 := by
  unfold lengthOfByte
  cases decoded : ofByte? byte with
  | none => rfl
  | some op =>
    have same := byte_of_ofByte? decoded
    cases op with
    | constant => exact absurd same.symm plain
    | _ => rfl

namespace Chunk

/-- The listing from an offset on. -/
def listingFrom (c : Chunk) (offset : Nat) : List Text :=
  (c.listingInto #[] offset).toList

section Listing
variable (c : Chunk)

theorem listingInto_inside (listed : Array Text) {offset : Nat} (inside : offset < c.code.size) :
    c.listingInto listed offset = c.listingInto (listed.push (c.instructionAt offset).1) (c.instructionAt offset).2 := by
  rw [listingInto, if_pos inside]

theorem listingInto_outside (listed : Array Text) {offset : Nat} (outside : ¬ offset < c.code.size) :
    c.listingInto listed offset = listed := by
  rw [listingInto, if_neg outside]

theorem listingInto_toList (listed : Array Text) (offset : Nat) :
    (c.listingInto listed offset).toList = listed.toList ++ c.listingFrom offset := by
  unfold listingFrom
  induction remaining : c.code.size - offset using Nat.strongRecOn generalizing listed offset with
  | _ rest ih =>
    by_cases inside : offset < c.code.size
    · have further := c.lt_instructionAt offset inside
      rw [c.listingInto_inside listed inside, c.listingInto_inside #[] inside, ih _ (by omega) _ _ rfl,
        ih _ (by omega) (#[].push _) _ rfl]
      simp
    · rw [c.listingInto_outside listed inside, c.listingInto_outside #[] inside]
      simp

theorem listingFrom_inside {offset : Nat} (inside : offset < c.code.size) :
    c.listingFrom offset = (c.instructionAt offset).1 :: c.listingFrom (c.instructionAt offset).2 := by
  rw [listingFrom, c.listingInto_inside #[] inside, listingInto_toList]
  rfl

end Listing

theorem operandAt?_isSome {c : Chunk} {offset : Nat} (inside : offset + 2 ≤ c.code.size) :
    ∃ operand, c.operandAt? offset = some operand := by
  have low : c.code[offset]? = some c.code[offset] := Array.getElem?_eq_getElem (by omega)
  have high : c.code[offset + 1]? = some c.code[offset + 1] := Array.getElem?_eq_getElem (by omega)
  refine ⟨c.code[offset].toUInt16 + c.code[offset + 1].toUInt16 * 256, ?_⟩
  simp only [operandAt?, low, high]

/-- An instruction that lies inside the code ends in the listing where the instruction set says. -/
theorem instructionAt_next {c : Chunk} {offset : Nat} {byte : UInt8} (here : c.code[offset]? = some byte)
    (inside : offset + Opcode.lengthOfByte byte ≤ c.code.size) :
    (c.instructionAt offset).2 = offset + Opcode.lengthOfByte byte := by
  show (c.instructionAt (.ofNat offset)).2 = offset + Opcode.lengthOfByte byte
  simp only [instructionAt, here, operationAt]
  by_cases loads : byte = Opcode.constant.byte
  · rw [loads, Opcode.lengthOfByte_constant] at inside
    obtain ⟨operand, found⟩ : ∃ operand, c.operandAt? (offset + 1 : Nat) = some operand := operandAt?_isSome inside
    rw [if_pos loads, loads, Opcode.lengthOfByte_constant, found]
    simp only
    split <;> rfl
  · rw [if_neg loads, Opcode.lengthOfByte_plain loads]

theorem instructionAt_step {c : Chunk} {capacity ip ip' : Nat} {stack stack' : Stack}
    (moves : c.step capacity ip stack = .next ip' stack') : (c.instructionAt ip).2 = ip' := by
  have leads := c.step_leads capacity ip stack
  rw [moves] at leads
  cases leads with
  | next here inside => exact instructionAt_next here inside

section Reaching
variable {c : Chunk} {capacity ip ip' ip'' : Nat} {stack stack' stack'' : Stack}

theorem reaches_zero_iff : c.Reaches capacity 0 ip stack ip' stack' ↔ (ip, stack) = (ip', stack') := by
  constructor
  · intro reaches
    cases reaches with
    | here => rfl
  · intro same
    obtain ⟨rfl, rfl⟩ := Prod.mk.inj same
    exact .here

theorem reaches_next_iff (moves : c.step capacity ip stack = .next ip' stack') (n : Nat) :
    c.Reaches capacity (n + 1) ip stack ip'' stack'' ↔ c.Reaches capacity n ip' stack' ip'' stack'' := by
  constructor
  · intro reaches
    cases reaches with
    | next moves' rest =>
      obtain ⟨rfl, rfl⟩ := Step.next.inj (moves.symm.trans moves')
      exact rest
  · exact .next moves

theorem not_reaches_halt {outcome : Except RuntimeError Value} (stops : c.step capacity ip stack = .halt outcome stack') (n : Nat) :
    ¬ c.Reaches capacity (n + 1) ip stack ip'' stack'' := by
  intro reaches
  cases reaches with
  | next moves _ => cases stops.symm.trans moves

end Reaching

/-- The states in which a run has an instruction before it, in the order in which the run comes to them. -/
structure Dispatches (c : Chunk) (capacity ip : Nat) (stack : Stack) (states : List (Nat × Stack)) : Prop where
  reached : ∀ k ip' stack', states[k]? = some (ip', stack') ↔
    c.Reaches capacity k ip stack ip' stack' ∧ ip' < c.code.size
  listed : (states.map fun state => (c.instructionAt state.1).1) <+: c.listingFrom ip

namespace Dispatches
variable {c : Chunk} {capacity ip ip' : Nat} {stack stack' : Stack} {outcome : Except RuntimeError Value}

private theorem first (inside : ip < c.code.size) (last : Nat) (final : Stack) :
    (ip, stack) = (last, final) ↔ c.Reaches capacity 0 ip stack last final ∧ last < c.code.size := by
  rw [reaches_zero_iff]
  refine ⟨fun same => ⟨same, ?_⟩, fun reached => reached.1⟩
  obtain ⟨rfl, rfl⟩ := Prod.mk.inj same
  exact inside

theorem ended (outside : ¬ ip < c.code.size) (stops : c.step capacity ip stack = .halt outcome stack') :
    c.Dispatches capacity ip stack [] := by
  refine ⟨?_, List.nil_prefix⟩
  intro k last final
  refine iff_of_false (by simp) ?_
  rintro ⟨reaches, inside⟩
  cases k with
  | zero =>
    obtain ⟨rfl, rfl⟩ := Prod.mk.inj (reaches_zero_iff.mp reaches)
    exact outside inside
  | succ k => exact not_reaches_halt stops k reaches

theorem halt (inside : ip < c.code.size) (stops : c.step capacity ip stack = .halt outcome stack') :
    c.Dispatches capacity ip stack [(ip, stack)] := by
  refine ⟨?_, ?_⟩
  · intro k last final
    cases k with
    | zero => rw [List.getElem?_cons_zero, Option.some_inj, first inside]
    | succ k => exact iff_of_false (by simp) fun reached => not_reaches_halt stops k reached.1
  · rw [c.listingFrom_inside inside]
    exact (List.prefix_cons_inj _).mpr List.nil_prefix

theorem next {states : List (Nat × Stack)} (moves : c.step capacity ip stack = .next ip' stack')
    (others : c.Dispatches capacity ip' stack' states) : c.Dispatches capacity ip stack ((ip, stack) :: states) := by
  have inside : ip < c.code.size := (lt_of_step moves).2
  refine ⟨?_, ?_⟩
  · intro k last final
    cases k with
    | zero => rw [List.getElem?_cons_zero, Option.some_inj, first inside]
    | succ k => rw [List.getElem?_cons_succ, others.reached, reaches_next_iff moves]
  · rw [c.listingFrom_inside inside, instructionAt_step moves]
    exact (List.prefix_cons_inj _).mpr others.listed

end Dispatches

theorem note_silent (c : Chunk) (traced : Array TraceEntry) (ip : Nat) (stack : Stack) : c.note false traced ip stack = traced :=
  rfl

theorem note_inside (c : Chunk) (traced : Array TraceEntry) {ip : Nat} (stack : Stack) (inside : ip < c.code.size) :
    c.note true traced ip stack = traced.push (.before c ip stack) := by
  simp [note, inside]

theorem note_outside (c : Chunk) (traced : Array TraceEntry) {ip : Nat} (stack : Stack) (outside : ¬ ip < c.code.size) :
    c.note true traced ip stack = traced := by
  simp [note, outside]

theorem runFrom_silent (c : Chunk) (capacity : Nat) (traced : Array TraceEntry) (ip : Nat) (stack : Stack) :
    (c.runFrom capacity false traced ip stack).trace = traced.toList := by
  induction remaining : c.code.size - ip using Nat.strongRecOn generalizing ip stack with
  | _ rest ih =>
    cases stepped : c.step capacity ip stack with
    | halt outcome stack' => rw [runFrom_halt stepped, note_silent]
    | next ip' stack' =>
      have further := lt_of_step stepped
      rw [runFrom_next stepped, note_silent]
      exact ih _ (by omega) ip' stack' rfl

/-- A trace has one entry for each instruction that the run dispatches. -/
theorem runFrom_traces (c : Chunk) (capacity : Nat) (traced : Array TraceEntry) (ip : Nat) (stack : Stack) :
    ∃ states, c.Dispatches capacity ip stack states ∧ (c.runFrom capacity true traced ip stack).trace =
      traced.toList ++ states.map fun state => .before c state.1 state.2 := by
  induction remaining : c.code.size - ip using Nat.strongRecOn generalizing traced ip stack with
  | _ rest ih =>
    cases stepped : c.step capacity ip stack with
    | halt outcome stack' =>
      rw [runFrom_halt stepped]
      by_cases inside : ip < c.code.size
      · refine ⟨[(ip, stack)], .halt inside stepped, ?_⟩
        simp [c.note_inside traced stack inside]
      · refine ⟨[], .ended inside stepped, ?_⟩
        simp [c.note_outside traced stack inside]
    | next ip' stack' =>
      have further := lt_of_step stepped
      obtain ⟨states, dispatches, noted⟩ := ih _ (by omega) (c.note true traced ip stack) ip' stack' rfl
      refine ⟨(ip, stack) :: states, .next stepped dispatches, ?_⟩
      rw [runFrom_next stepped, noted, c.note_inside traced stack further.2]
      simp

end Chunk

namespace TraceEntry

/-- How a trace shows the values on the stack and the instruction that it comes to. -/
def shown (strings : StringTable) (values : Array Value) (instruction : Text) : Text :=
  utf8 "          " ++ values.toList.flatMap (fun v => utf8 "[ " ++ strings.format v ++ utf8 " ]") ++ utf8 "\n" ++
    instruction ++ utf8 "\n"

theorem text_before (c : Chunk) (states : List (Nat × Stack)) :
    text (states.map fun state => before c state.1 state.2) =
      states.flatMap fun state => shown c.strings state.2.values (c.instructionAt state.1).1 := by
  induction states with
  | nil => rfl
  | cons state states ih =>
    have blanks : utf8 "          " = List.replicate 10 0x20 := by decide
    have newline : utf8 "\n" = [Text.newline] := by decide
    simp only [text, Text.lines, List.map_cons, List.flatMap_cons] at ih ⊢
    rw [List.flatMap_append, ih, shown, blanks, newline]
    simp [before, stackLine]

end TraceEntry

/-- The first list paired with the beginning of the second one. -/
private theorem zip_map_prefix {α β γ : Type} (f : α → β) (g : α → γ) {xs : List α} {ys : List γ} (front : xs.map g <+: ys) :
    (xs.map f).zip ys = xs.map fun x => (f x, g x) := by
  obtain ⟨more, rfl⟩ := front
  rw [← List.append_nil (xs.map f), List.zip_append (by simp), List.zip_map']
  simp

/-- A trace does not disturb the run. It shows, for each instruction that is dispatched, the stack before it and the next
line of the listing. -/
theorem trace_follows_listing (m : Machine) {c : Chunk} (lined : c.code.size = c.lines.size) :
    let traced := Machine.execute { m with tracing := true } (some c)
    let silent := Machine.execute { m with tracing := false } (some c)
    traced.outcome = silent.outcome ∧ traced.machine.stack.size = silent.machine.stack.size ∧ silent.trace = [] ∧
      ∃ held : List (Array Value), held.length ≤ c.listing.length ∧
        TraceEntry.text traced.trace =
          (held.zip c.listing).flatMap (fun (values, line) => TraceEntry.shown c.strings values line) ∧
        ∀ k values, held[k]? = some values ↔
          ∃ ip stack, c.Reaches m.capacity k 0 m.stack.clear ip stack ∧ ip < c.code.size ∧ stack.values = values := by
  have ends (tracing : Bool) := c.runFrom_ending m.capacity tracing #[] 0 m.stack.clear
  obtain ⟨outcome, values⟩ := Prod.mk.inj ((ends true).trans (ends false).symm)
  obtain ⟨states, dispatches, noted⟩ := c.runFrom_traces m.capacity #[] 0 m.stack.clear
  have listed : states.map (fun state => (c.instructionAt state.1).1) <+: c.listing := dispatches.listed
  simp only [Machine.execute_lined _ lined, Chunk.run]
  refine ⟨outcome, Stack.size_eq values, c.runFrom_silent .., states.map fun state => state.2.values, ?_, ?_, ?_⟩
  · simpa using listed.length_le
  · rw [noted, Array.toList_empty, List.nil_append, TraceEntry.text_before, zip_map_prefix _ _ listed, List.flatMap_map]
  · intro k shown
    rw [List.getElem?_map, Option.map_eq_some_iff]
    constructor
    · rintro ⟨⟨ip, stack⟩, found, rfl⟩
      obtain ⟨reaches, inside⟩ := (dispatches.reached k ip stack).mp found
      exact ⟨ip, stack, reaches, inside, rfl⟩
    · rintro ⟨ip, stack, reaches, inside, rfl⟩
      exact ⟨(ip, stack), (dispatches.reached k ip stack).mpr ⟨reaches, inside⟩, rfl⟩

theorem cutShort_traced :
    let traced := (Machine.new 1 true).execute (some Chunk.cutShort)
    traced.outcome = ((Machine.new 1 false).execute (some Chunk.cutShort)).outcome ∧
      TraceEntry.text traced.trace =
        utf8 "          \n0000    3 OP_NIL\n          [ nil ]\n0001    7 OP_CONSTANT      <truncated>\n" := by
  intro traced
  obtain ⟨outcome, _, _, held, few, text, reached⟩ := trace_follows_listing (Machine.new 1 true) (c := Chunk.cutShort) rfl
  have listing : Chunk.cutShort.listing = [utf8 "0000    3 OP_NIL", utf8 "0001    7 OP_CONSTANT      <truncated>"] := by cbv
  have first : held[0]? = some #[] := (reached 0 #[]).mpr ⟨0, _, .here, by decide, rfl⟩
  have second : held[1]? = some #[.nil] := (reached 1 #[.nil]).mpr ⟨1, _, .next rfl .here, by decide, rfl⟩
  obtain rfl : held = [#[], #[.nil]] := by
    rw [listing] at few
    rcases held with _ | ⟨a, _ | ⟨b, _ | ⟨c, more⟩⟩⟩
    · simp at first
    · simp at second
    · simp_all
    · simp at few
  refine ⟨outcome, text.trans ?_⟩
  rw [listing]
  decide

end ExprLang
