import ExprLang.Proofs.OpcodeTable

/-! Two walks through the code of a chunk. The listing goes from an instruction to where its text ends, which is never beyond
the code. The count goes on as far as the instruction set says, even if the code is cut off before. Up to the end of the
code both are the same step, so that they visit the same offsets, and the instructions there share the code among them. -/

namespace ExprLang

/-- A walk from an offset on: as long as it is inside, it visits the offset where it is and moves on. The last offset is the one
where it ends. -/
inductive Walk (size : Nat) (next : Nat → Nat) : Nat → List Nat → Nat → Prop
  | ended {offset : Nat} : size ≤ offset → Walk size next offset [] offset
  | visit {offset stop : Nat} {visited : List Nat} :
      offset < size → Walk size next (next offset) visited stop → Walk size next offset (offset :: visited) stop

namespace Walk

variable {size offset stop : Nat} {next next' : Nat → Nat} {visited : List Nat}

/-- Steps that are equal inside make the same walk, whatever they do beyond. -/
theorem congr (walk : Walk size next offset visited stop) (same : ∀ n < size, min (next n) size = min (next' n) size) :
    ∃ stop', Walk size next' offset visited stop' := by
  induction walk with
  | ended outside => exact ⟨_, .ended outside⟩
  | @visit offset stop visited inside rest ih =>
    have step := same offset inside
    by_cases further : next offset < size
    · have equal : next offset = next' offset := by omega
      obtain ⟨stop', rest'⟩ := ih
      exact ⟨stop', .visit inside (equal ▸ rest')⟩
    · cases rest with
      | ended => exact ⟨next' offset, .visit inside (.ended (by omega))⟩
      | visit inside' => exact absurd inside' further

section Forward
variable (forward : ∀ n < size, n < next n)
include forward

/-- The offsets ascend, up to the one where the walk ends. -/
theorem ascending (walk : Walk size next offset visited stop) :
    (∀ n ∈ visited ++ [stop], offset ≤ n) ∧ (visited ++ [stop]).Pairwise (· < ·) := by
  induction walk with
  | ended => simp
  | @visit offset stop visited inside _ ih =>
    have first := forward offset inside
    have above : ∀ n ∈ visited ++ [stop], offset < n := fun n member => Nat.lt_of_lt_of_le first (ih.1 n member)
    refine ⟨?_, List.pairwise_cons.mpr ⟨above, ih.2⟩⟩
    intro n member
    rcases List.mem_cons.mp member with rfl | member
    · exact Nat.le_refl _
    · exact Nat.le_of_lt (above n member)

/-- What lies between the ends of a walk lies in exactly one of its steps. -/
theorem covers (walk : Walk size next offset visited stop) {i : Nat} (behind : offset ≤ i) (before : i < stop) :
    ∃! n, n ∈ visited ∧ n ≤ i ∧ i < next n := by
  induction walk with
  | ended => omega
  | @visit offset stop visited inside rest ih =>
    by_cases here : i < next offset
    · refine ⟨offset, ⟨List.mem_cons_self, behind, here⟩, ?_⟩
      rintro n ⟨member, reached, -⟩
      rcases List.mem_cons.mp member with rfl | member
      · rfl
      · have above := (rest.ascending forward).1 n (List.mem_append_left _ member)
        omega
    · obtain ⟨n, ⟨member, reached, passed⟩, unique⟩ := ih (Nat.le_of_not_lt here) before
      refine ⟨n, ⟨List.mem_cons_of_mem _ member, reached, passed⟩, ?_⟩
      rintro m ⟨member', reached', passed'⟩
      rcases List.mem_cons.mp member' with rfl | member'
      · exact absurd passed' here
      · exact unique m ⟨member', reached', passed'⟩

end Forward

end Walk

namespace Chunk

/-- Where the instruction at an offset ends as the instruction set says. -/
def endAt (c : Chunk) (offset : Nat) : Nat :=
  offset + Opcode.lengthOfByte (c.code.getD offset 0)

variable {c : Chunk} {offset : Nat}

theorem endAt_eq (inside : offset < c.code.size) : c.endAt offset = offset + Opcode.lengthOfByte c.code[offset] := by
  rw [endAt, Array.getD, dif_pos inside]
  rfl

theorem instructionAt_cut (here : c.code[offset]? = some Opcode.constant.byte) (cut : c.code.size < offset + 3) :
    (c.instructionAt offset).2 = c.code.size := by
  have missing : c.operandAt? (offset + 1 : Nat) = none := by
    cases found : c.operandAt? (offset + 1 : Nat) with
    | none => rfl
    | some operand =>
      have room := operandAt?_inside found
      omega
  show (c.instructionAt (.ofNat offset)).2 = c.code.size
  simp only [instructionAt, here, operationAt, if_pos, missing]

/-- The listing goes on where the instruction set says, but not beyond the code. -/
theorem instructionAt_end (inside : offset < c.code.size) : (c.instructionAt offset).2 = min (c.endAt offset) c.code.size := by
  have here : c.code[offset]? = some c.code[offset] := Array.getElem?_eq_getElem inside
  rw [endAt_eq inside]
  by_cases whole : offset + Opcode.lengthOfByte c.code[offset] ≤ c.code.size
  · rw [instructionAt_next here whole, Nat.min_eq_left whole]
  · rw [Nat.min_eq_right (Nat.le_of_not_le whole)]
    have loads : c.code[offset] = Opcode.constant.byte := by
      by_contra plain
      rw [Opcode.lengthOfByte_plain plain] at whole
      omega
    rw [loads] at here whole
    rw [Opcode.lengthOfByte_constant] at whole
    exact instructionAt_cut here (Nat.lt_of_not_le whole)

/-- The walk of the listing ends where the code does. -/
theorem listing_walks (c : Chunk) {offset : Nat} (inside : offset ≤ c.code.size) :
    Walk c.code.size (fun n => (c.instructionAt n).2) offset (c.offsetsFrom offset) c.code.size := by
  induction remaining : c.code.size - offset using Nat.strongRecOn generalizing offset with
  | _ rest ih =>
    by_cases more : offset < c.code.size
    · have further := c.lt_instructionAt offset more
      have bound : (c.instructionAt offset).2 ≤ c.code.size := instructionAt_end more ▸ Nat.min_le_right _ _
      rw [offsetsFrom_inside more]
      exact .visit more (ih _ (by omega) bound rfl)
    · obtain rfl : offset = c.code.size := by omega
      rw [offsetsFrom, if_neg more]
      exact .ended (Nat.le_refl _)

/-- The walk of the count visits the same offsets. -/
theorem count_walks (c : Chunk) : ∃ stop, Walk c.code.size c.endAt 0 (c.offsetsFrom 0) stop := by
  apply (c.listing_walks (Nat.zero_le _)).congr
  intro n inside
  rw [instructionAt_end inside, Nat.min_assoc, Nat.min_self]

theorem countFrom_eq {visited : List Nat} {stop : Nat} (walk : Walk c.code.size c.endAt offset visited stop) (counted : Nat) :
    c.countFrom counted offset = counted + visited.length := by
  induction walk generalizing counted with
  | ended outside =>
    rw [countFrom, dif_neg (Nat.not_lt.mpr outside)]
    rfl
  | visit inside _ ih =>
    rw [countFrom, dif_pos inside, ← endAt_eq inside, ih, List.length_cons]
    omega

theorem countInstructions_eq (c : Chunk) : c.countInstructions = (c.offsetsFrom 0).length := by
  obtain ⟨stop, walk⟩ := c.count_walks
  rw [countInstructions, countFrom_eq walk, Nat.zero_add]

theorem length_listing (c : Chunk) : c.listing.length = c.countInstructions := by
  have listed : c.listing = (c.offsetsFrom 0).map fun n : Nat => (c.instructionAt n).1 := c.listingFrom_eq 0
  rw [listed, List.length_map, c.countInstructions_eq]

end Chunk

/-- The listing and the count walk through the code by the same offsets. These ascend from zero, the listing ends with the code, and
every byte belongs to exactly one of the instructions. -/
theorem code_walks_agree (c : Chunk) :
    ∃ visited stop,
      Walk c.code.size (fun n => (c.instructionAt n).2) 0 visited c.code.size ∧
      c.listing = visited.map (fun n : Nat => (c.instructionAt n).1) ∧
      (visited ++ [c.code.size]).Pairwise (· < ·) ∧
      (∀ i < c.code.size, ∃! n, n ∈ visited ∧ n ≤ i ∧ i < (c.instructionAt n).2) ∧
      Walk c.code.size c.endAt 0 visited stop ∧ c.countInstructions = visited.length ∧
      c.listing.length = c.countInstructions := by
  have walk := c.listing_walks (Nat.zero_le _)
  obtain ⟨stop, counting⟩ := c.count_walks
  refine ⟨c.offsetsFrom 0, stop, walk, c.listingFrom_eq 0, (walk.ascending c.lt_instructionAt).2, ?_, counting,
    c.countInstructions_eq, c.length_listing⟩
  intro i inside
  exact walk.covers c.lt_instructionAt (Nat.zero_le i) inside

end ExprLang
