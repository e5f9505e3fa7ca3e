import ExprLang.Proofs.Interning
import ExprLang.Proofs.MachineSafety

/-! Where the values of a run come from. An operator computes a number or a boolean, and never an object, so that an object
comes to the stack only by loading a constant. Whatever the code is, the stack therefore holds nothing that the constants
of the chunk do not answer for. -/

namespace ExprLang

namespace Value

/-- The payload is one that the constructors of the kind give, and an object refers to an entry. -/
structure Canonical (strings : StringTable) (v : Value) : Prop where
  nil : v.kind = .nil → v.word = 0
  bool : v.kind = .bool → v.word = 0 ∨ v.word = 1
  object : v.kind = .object → v.word.toNat < strings.size

theorem canonical_of_plain (strings : StringTable) {v : Value} (plain : v.kind ≠ .object) : v.Canonical strings := by
  cases v with
  | object word => exact absurd rfl plain
  | bool b =>
    refine ⟨by simp [kind], ?_, by simp [kind]⟩
    cases b <;> simp [word]
  | _ => refine ⟨?_, ?_, ?_⟩ <;> simp [kind, word]

theorem Canonical.contains {strings : StringTable} {v : Value} (canonical : v.Canonical strings) : strings.contains v = true := by
  cases v with
  | object word =>
    have inside : word.toUInt32.toNat < strings.entries.size := by
      rw [UInt64.toNat_toUInt32]
      exact Nat.lt_of_le_of_lt (Nat.mod_le _ _) (canonical.object rfl)
    show (strings.entries[word.toUInt32.toNat]?).isSome = true
    rw [Array.getElem?_eq_getElem inside]
    rfl
  | _ => rfl

theorem negate_plain {a v : Value} (computed : a.negate = .ok v) : v.kind ≠ .object := by
  cases a <;> cases computed <;> exact ValueKind.noConfusion

theorem arithmetic_plain {onIntegers : Int64 → Int64 → Except Fault Int64} {onDoubles : Float → Float → Float} {a b v : Value}
    (computed : arithmetic onIntegers onDoubles a b = .ok v) : v.kind ≠ .object := by
  unfold arithmetic at computed
  split at computed
  next m n =>
    cases result : onIntegers m n with
    | ok k =>
      obtain rfl : integer k = v := by simpa [result, Except.map] using computed
      exact ValueKind.noConfusion
    | error fault => simp [result, Except.map] at computed
  · cases computed
    exact ValueKind.noConfusion
  · cases computed

theorem less_plain {a b v : Value} (computed : a.less b = .ok v) : v.kind ≠ .object := by
  unfold less at computed
  split at computed <;> cases computed <;> exact ValueKind.noConfusion

theorem greater_plain {a b v : Value} (computed : a.greater b = .ok v) : v.kind ≠ .object := by
  unfold greater at computed
  split at computed <;> cases computed <;> exact ValueKind.noConfusion

end Value

namespace Chunk

/-- A value that needs no entry, or one of the constants. -/
def Supplies (c : Chunk) (v : Value) : Prop :=
  v.kind = .object → v ∈ c.constants

theorem supplies_plain (c : Chunk) {v : Value} (plain : v.kind ≠ .object) : c.Supplies v :=
  fun object => absurd object plain

/-- Everything on the stack is supplied by the chunk. -/
def Feeds (c : Chunk) (stack : Stack) : Prop :=
  ∀ v ∈ stack.values, c.Supplies v

namespace Feeds
variable {c : Chunk} {stack : Stack} (feeds : c.Feeds stack) (capacity : Nat)
include feeds

theorem pop : c.Feeds stack.pop := by
  intro v member
  rw [Stack.values_pop, Array.mem_def, Array.toList_pop] at member
  exact feeds v (Array.mem_def.mpr (List.dropLast_subset _ member))

theorem push {v : Value} (supplied : c.Supplies v) : c.Feeds (stack.push capacity v).stack := by
  unfold Stack.push
  split
  · intro u member
    rw [Stack.values_put] at member
    rcases Array.mem_push.mp member with old | rfl
    · exact feeds u old
    · exact supplied
  · exact feeds

theorem unary {f : Value → Except Fault Value} (plain : ∀ {a v}, f a = .ok v → v.kind ≠ .object) :
    c.Feeds (stack.unary capacity f).stack := by
  unfold Stack.unary
  split
  · exact feeds
  · split
    · exact feeds.pop
    next computed => exact feeds.pop.push capacity (c.supplies_plain (plain computed))

theorem binary {f : Value → Value → Except Fault Value} (plain : ∀ {a b v}, f a b = .ok v → v.kind ≠ .object) :
    c.Feeds (stack.binary capacity f).stack := by
  simp only [Stack.binary]
  split
  · exact feeds
  · split
    · exact feeds.pop
    · split
      · exact feeds.pop.pop
      next computed => exact feeds.pop.pop.push capacity (c.supplies_plain (plain computed))

theorem drop : c.Feeds stack.drop.stack := by
  unfold Stack.drop
  split
  · exact feeds
  · exact feeds.pop

theorem effect (op : Opcode) : c.Feeds (op.effect capacity stack).stack := by
  have truth {b : Bool} {v : Value} (computed : (Except.ok (.bool b) : Except Fault Value) = .ok v) : v.kind ≠ .object := by
    cases computed
    exact ValueKind.noConfusion
  cases op with
  | constant => exact feeds
  | pushNil | pushTrue | pushFalse =>
    apply feeds.push capacity
    apply c.supplies_plain
    exact ValueKind.noConfusion
  | negate => exact feeds.unary capacity Value.negate_plain
  | not => exact feeds.unary capacity truth
  | add | subtract | multiply | divide => exact feeds.binary capacity Value.arithmetic_plain
  | greater => exact feeds.binary capacity Value.greater_plain
  | less => exact feeds.binary capacity Value.less_plain
  | equal => exact feeds.binary capacity truth
  | pop | ret => exact feeds.drop

/-- A load is the one instruction that may put an object on the stack. -/
theorem load (ip : Nat) : c.Feeds (c.load capacity ip stack).stack := by
  unfold Chunk.load
  split
  · exact feeds
  · split
    · exact feeds
    next constant => exact feeds.push capacity fun _ => Array.mem_of_getElem? constant

theorem step (ip : Nat) : c.Feeds (c.step capacity ip stack).stack := by
  unfold Chunk.step
  split
  · exact feeds
  · split
    · exact feeds
    · rw [proceed_stack]
      exact feeds.load capacity ip
    · split
      · exact feeds
      · exact feeds.pop
    · rw [proceed_stack]
      exact feeds.effect capacity _

theorem reaches {n ip ip' : Nat} {stack' : Stack} (reached : c.Reaches capacity n ip stack ip' stack') : c.Feeds stack' := by
  induction reached with
  | here => exact feeds
  | @next n ip ip' ip'' stack next stack'' moves _ ih =>
    have after := feeds.step capacity ip
    rw [moves] at after
    exact ih after

end Feeds

theorem feeds_clear (c : Chunk) (stack : Stack) : c.Feeds stack.clear := by
  intro v member
  simp at member

/-- A result is what was on top of the stack. -/
theorem step_result {c : Chunk} {capacity ip : Nat} {stack stack' : Stack} {v : Value}
    (stops : c.step capacity ip stack = .halt (.ok v) stack') : v ∈ stack.values := by
  have proceeds (byte : UInt8) (next : Nat) (e : Effect) : c.proceed ip byte next e ≠ .halt (.ok v) stack' := by
    unfold proceed
    split <;> simp [failure]
  unfold step at stops
  split at stops
  · simp [failure] at stops
  · split at stops
    · simp [failure] at stops
    · exact absurd stops (proceeds _ _ _)
    · split at stops
      · simp [failure] at stops
      next top =>
        obtain ⟨rfl, _⟩ : _ = v ∧ _ := by simpa using stops
        rw [← Stack.back?_values] at top
        exact Array.mem_of_back? top
    · exact absurd stops (proceeds _ _ _)

theorem Supplies.canonical {c : Chunk} {v : Value} (supplied : c.Supplies v)
    (canonical : ∀ v ∈ c.constants, v.Canonical c.strings) : v.Canonical c.strings := by
  by_cases object : v.kind = .object
  · exact canonical v (supplied object)
  · exact v.canonical_of_plain c.strings object

end Chunk

theorem StringTable.format_of_contains {t : StringTable} {v : Value} (object : v.kind = .object)
    (resolved : t.contains v = true) : ∃ s ∈ t.entries, t.get? v.ref = some s ∧ t.format v = s := by
  cases v with
  | object word =>
    obtain ⟨s, entry⟩ := Option.isSome_iff_exists.mp resolved
    refine ⟨s, Array.mem_of_getElem? entry, entry, ?_⟩
    rw [format, entry]
    rfl
  | _ => cases object

/-- What an execution leaves on the stack is fed by the chunk, and so is its result. -/
theorem Machine.execute_feeds (m : Machine) {c : Chunk} (lined : c.code.size = c.lines.size) :
    c.Feeds (m.execute (some c)).machine.stack ∧ ∀ v, (m.execute (some c)).outcome = .ok v → c.Supplies v := by
  obtain ⟨n, ip, stack, reached, stops, _⟩ := c.runFrom_ends m.capacity m.tracing #[] 0 m.stack.clear
  have before := (c.feeds_clear m.stack).reaches m.capacity reached
  have after := before.step m.capacity ip
  rw [stops] at after
  simp only [m.execute_lined lined, Chunk.run]
  refine ⟨after, ?_⟩
  intro v result
  exact before v (Chunk.step_result (result ▸ stops))

theorem Machine.lined_of_result {m : Machine} {c : Chunk} {v : Value} (result : (m.execute (some c)).outcome = .ok v) :
    c.code.size = c.lines.size := by
  apply Classical.byContradiction
  intro mismatch
  simp [execute, mismatch, reject] at result

/-- If the constants of a chunk are well-formed, every value on the stack in every state of a run is, and so is the result,
whatever the code is. An object is always one of the constants, and as a result it is shown as the string that it refers to. -/
theorem execution_keeps_values_wellformed (m : Machine) {c : Chunk} (canonical : ∀ v ∈ c.constants, v.Canonical c.strings) :
    (∀ n ip stack, c.Reaches m.capacity n 0 m.stack.clear ip stack → ∀ v ∈ stack.values,
      c.strings.contains v = true ∧ v.Canonical c.strings ∧ (v.kind = .object → v ∈ c.constants)) ∧
    (c.code.size = c.lines.size → ∀ v ∈ (m.execute (some c)).machine.stack.values,
      c.strings.contains v = true ∧ v.Canonical c.strings ∧ (v.kind = .object → v ∈ c.constants)) ∧
    ∀ v, (m.execute (some c)).outcome = .ok v →
      c.strings.contains v = true ∧ v.Canonical c.strings ∧
        (v.kind = .object → v ∈ c.constants ∧ ∃ s ∈ c.strings.entries,
          (m.execute (some c)).machine.strings.get? v.ref = some s ∧ (m.execute (some c)).machine.strings.format v = s) := by
  have sound {v : Value} (supplied : c.Supplies v) :
      c.strings.contains v = true ∧ v.Canonical c.strings ∧ (v.kind = .object → v ∈ c.constants) :=
    have payload := supplied.canonical canonical
    ⟨payload.contains, payload, supplied⟩
  refine ⟨?_, ?_, ?_⟩
  · intro n ip stack reached v member
    exact sound ((c.feeds_clear m.stack).reaches m.capacity reached v member)
  · intro lined v member
    exact sound ((m.execute_feeds lined).1 v member)
  · intro v result
    have lined := Machine.lined_of_result result
    have strings : (m.execute (some c)).machine.strings = c.strings := by
      rw [m.execute_lined lined]
      rfl
    obtain ⟨known, payload, constant⟩ := sound ((m.execute_feeds lined).2 v result)
    refine ⟨known, payload, ?_⟩
    intro object
    rw [strings]
    exact ⟨constant object, StringTable.format_of_contains object known⟩

/-- Numbers with the payloads of a reference and of a boolean are computed on top of a string, and dropped. -/
def Chunk.lookalikes : Chunk where
  code := #[0x01, 0x00, 0x00, 0x01, 0x01, 0x00, 0x03, 0x10, 0x01, 0x02, 0x00, 0x10, 0x02]
  lineTable := some #[1, 1, 1, 2, 2, 2, 2, 2, 3, 3, 3, 3, 4]
  constants := #[.object 0, .integer 1, .double 1]
  strings := ⟨#[utf8 "?"], by decide⟩

theorem lookalikes_give_their_string :
    let m := Machine.new 2 false
    (∀ v ∈ Chunk.lookalikes.constants, v.Canonical Chunk.lookalikes.strings) ∧
      (m.execute (some Chunk.lookalikes)).outcome = .ok (.object 0) ∧
      ∃ s ∈ Chunk.lookalikes.strings.entries, (m.execute (some Chunk.lookalikes)).machine.strings.format (.object 0) = s := by
  intro m
  have canonical : ∀ v ∈ Chunk.lookalikes.constants, v.Canonical Chunk.lookalikes.strings := by
    intro v member
    simp only [Chunk.lookalikes, List.mem_toArray, List.mem_cons, List.not_mem_nil, or_false] at member
    rcases member with rfl | rfl | rfl
    · exact ⟨ValueKind.noConfusion, ValueKind.noConfusion, fun _ => by decide⟩
    · exact Value.canonical_of_plain _ ValueKind.noConfusion
    · exact Value.canonical_of_plain _ ValueKind.noConfusion
  have result : (m.execute (some Chunk.lookalikes)).outcome = .ok (.object 0) := by cbv
  obtain ⟨_, _, sound⟩ := execution_keeps_values_wellformed m canonical
  obtain ⟨_, s, member, _, shown⟩ := (sound _ result).2.2 rfl
  exact ⟨canonical, result, s, member, shown⟩

end ExprLang
