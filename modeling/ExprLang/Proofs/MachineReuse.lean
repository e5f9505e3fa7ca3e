import ExprLang.Proofs.Lockstep

/-! What an execution does not depend on. Earlier executions leave their values in the cells of the machine, but a run
starts below all of these and reads only what it has put there itself. Nor does it matter how large the stack may grow
beyond what the run needs. -/

namespace ExprLang

theorem Chunk.run_matches (c : Chunk) {capacity larger : Nat} (grows : capacity ≤ larger) (tracing : Bool) (s t : Stack) :
    (c.run capacity tracing s).Matches capacity larger (c.run larger tracing t) := by
  apply runFrom_matches _ grows
  rw [Stack.values_clear, Stack.values_clear]

namespace Machine

/-- The machine after one execution after another. -/
def after (m : Machine) (history : List (Option Chunk)) : Machine :=
  history.foldl (fun m c => (m.execute c).machine) m

theorem execute_settings (m : Machine) (c : Option Chunk) :
    (m.execute c).machine.capacity = m.capacity ∧ (m.execute c).machine.tracing = m.tracing := by
  cases c with
  | none => exact ⟨rfl, rfl⟩
  | some c =>
    unfold execute
    simp only
    split <;> exact ⟨rfl, rfl⟩

theorem after_settings (m : Machine) (history : List (Option Chunk)) :
    (m.after history).capacity = m.capacity ∧ (m.after history).tracing = m.tracing := by
  induction history generalizing m with
  | nil => exact ⟨rfl, rfl⟩
  | cons c history ih =>
    obtain ⟨capacity, tracing⟩ := m.execute_settings c
    obtain ⟨capacity', tracing'⟩ := ih (m.execute c).machine
    exact ⟨capacity'.trans capacity, tracing'.trans tracing⟩

/-- What a machine does not run: no chunk at all, or one whose lines do not match its code. -/
def Refuses : Option Chunk → Prop
  | none => True
  | some c => c.code.size ≠ c.lines.size

theorem execute_refused {c : Option Chunk} (refused : Refuses c) :
    ∃ fault, fault.cause = "malformed chunk" ∧ ∀ m : Machine, m.execute c = m.reject c fault := by
  cases c with
  | none => exact ⟨.noChunk, rfl, fun _ => rfl⟩
  | some c => exact ⟨.lineCount c.code.size c.lines.size, rfl, fun _ => if_pos refused⟩

/-- Executions on two machines of the same settings, whatever is in their cells. -/
theorem execute_alike {m m' : Machine} (capacity : m.capacity = m'.capacity) (tracing : m.tracing = m'.tracing) {c : Chunk}
    (lined : c.code.size = c.lines.size) :
    (m.execute (some c)).outcome = (m'.execute (some c)).outcome ∧
      (m.execute (some c)).machine.stack.values = (m'.execute (some c)).machine.stack.values ∧
      (m.execute (some c)).trace = (m'.execute (some c)).trace := by
  have matching := c.run_matches (Nat.le_refl m.capacity) m.tracing m.stack m'.stack
  simp only [execute_lined _ lined, ← capacity, ← tracing]
  generalize c.run m.capacity m.tracing m.stack = first at matching
  generalize c.run m.capacity m.tracing m'.stack = second at matching
  cases matching with
  | same same => exact ⟨rfl, same, rfl⟩
  | full more => exact absurd more (Nat.lt_irrefl _)

/-- After any history, a machine does with a chunk what a new one does, and the chunk stays as it is but for its being
frozen. A chunk that it refuses changes neither the machine nor itself. -/
theorem execute_forgets_history (m : Machine) (stackSize : Int) (sized : (new stackSize m.tracing).capacity = m.capacity)
    (history : List (Option Chunk)) :
    (∀ c : Chunk, c.code.size = c.lines.size →
      let used := (m.after history).execute (some c)
      let fresh := (new stackSize m.tracing).execute (some c)
      used.outcome = fresh.outcome ∧ used.machine.stack.size = fresh.machine.stack.size ∧
        TraceEntry.text used.trace = TraceEntry.text fresh.trace ∧
        used.chunk = some { c with frozen := true } ∧ used.machine.loaded = used.chunk) ∧
    ∀ c : Option Chunk, Refuses c →
      let refused := (m.after history).execute c
      (∃ err, refused.outcome = .error err ∧ err.fault.cause = "malformed chunk") ∧
        refused.machine = m.after history ∧ refused.chunk = c := by
  obtain ⟨capacity, tracing⟩ := m.after_settings history
  refine ⟨?_, ?_⟩
  · intro c lined
    obtain ⟨outcome, values, trace⟩ := execute_alike (capacity.trans sized.symm) tracing lined
    refine ⟨outcome, Stack.size_eq values, congrArg TraceEntry.text trace, ?_⟩
    rw [execute_lined _ lined]
    exact ⟨rfl, rfl⟩
  · intro c refused
    obtain ⟨fault, malformed, same⟩ := execute_refused refused
    simp only [same]
    exact ⟨⟨_, rfl, malformed⟩, rfl, rfl⟩

/-- A sum of unlike values, which fails. -/
def faultySum : Chunk where
  code := #[0x08, 0x09, 0x04]
  lineTable := some #[1, 1, 1]

/-- False twice denied, without a result. -/
def twiceDenied : Chunk where
  code := #[0x0A, 0x0E, 0x0E, 0x10]
  lineTable := some #[1, 1, 1, 1]

theorem faults_leave_no_mark :
    let used := ((new 2 true).after [some faultySum, none, some { faultySum with code := #[] }]).execute (some twiceDenied)
    let fresh := (new 2 true).execute (some twiceDenied)
    ((new 2 true).after [some faultySum, none, some { faultySum with code := #[] }]).stack.cells = #[.nil, .bool true] ∧
      used.outcome = fresh.outcome ∧ used.machine.stack.size = 0 ∧
      TraceEntry.text used.trace = TraceEntry.text fresh.trace ∧ used.chunk = some { twiceDenied with frozen := true } := by
  intro used fresh
  have cells : ((new 2 true).after [some faultySum, none, some { faultySum with code := #[] }]).stack.cells =
    #[.nil, .bool true] := by cbv
  have empty : fresh.machine.stack.size = 0 := by cbv
  obtain ⟨runs, _⟩ := execute_forgets_history (new 2 true) 2 rfl
    [some faultySum, none, some { faultySum with code := #[] }]
  obtain ⟨outcome, depth, trace, frozen, _⟩ := runs twiceDenied rfl
  exact ⟨cells, outcome, depth.trans empty, trace, frozen⟩

/-- A larger stack changes nothing unless the smaller one overflows. If it does, the run with the larger one gets at
least as far as the instruction that overflowed. -/
theorem execute_capacity_mono (m : Machine) {larger : Nat} (grows : m.capacity ≤ larger) (c : Option Chunk) :
    let small := m.execute c
    let large := execute { m with capacity := larger } c
    ((∀ err, small.outcome = .error err → err.fault.cause ≠ "stack overflow") →
      large.outcome = small.outcome ∧ large.machine.stack.size = small.machine.stack.size ∧ large.trace = small.trace) ∧
    ∀ err, small.outcome = .error err → err.fault.cause = "stack overflow" →
      ∀ err', large.outcome = .error err' → err.offset ≤ err'.offset := by
  by_cases refused : Refuses c
  · obtain ⟨fault, malformed, same⟩ := execute_refused refused
    simp only [same]
    refine ⟨fun _ => ⟨rfl, rfl, rfl⟩, ?_⟩
    intro err failed overflows
    obtain rfl := Except.error.inj failed
    simp [malformed] at overflows
  · obtain ⟨c, rfl, lined⟩ : ∃ d : Chunk, c = some d ∧ d.code.size = d.lines.size := by
      cases c with
      | none => exact (refused trivial).elim
      | some c => exact ⟨c, rfl, Classical.byContradiction refused⟩
    have matching := c.run_matches grows m.tracing m.stack m.stack
    simp only [execute_lined _ lined]
    generalize c.run m.capacity m.tracing m.stack = small at matching
    generalize c.run larger m.tracing m.stack = large at matching
    cases matching with
    | same same =>
      refine ⟨fun _ => ⟨rfl, (Stack.size_eq same).symm, rfl⟩, ?_⟩
      intro err failed _ err' failed'
      obtain rfl := Except.error.inj (failed.symm.trans failed')
      exact Nat.le_refl _
    | full _ overflow further =>
      refine ⟨fun fine => absurd (by rw [overflow]; rfl) (fine _ rfl), ?_⟩
      intro err failed _ err' failed'
      obtain rfl := Except.error.inj failed
      exact further err' failed'

/-- Three values, of which an operator takes two that it cannot add. -/
def crowded : Chunk where
  code := #[0x08, 0x08, 0x08, 0x04]
  lineTable := some #[1, 1, 2, 2]

theorem crowded_fails_no_earlier :
    ((new 2 false).execute (some crowded)).outcome = .error ⟨2, 2, 0x08, .stackOverflow 2⟩ ∧
      (∀ err, ((new 3 false).execute (some crowded)).outcome = .error err → 2 ≤ err.offset) ∧
      ((new 9 false).execute (some crowded)).outcome = .error ⟨3, 2, 0x04, .unlikeOperands .nil .nil⟩ := by
  have overflow : ((new 2 false).execute (some crowded)).outcome = .error ⟨2, 2, 0x08, .stackOverflow 2⟩ := by cbv
  have mismatch : ((new 3 false).execute (some crowded)).outcome = .error ⟨3, 2, 0x04, .unlikeOperands .nil .nil⟩ := by
    cbv
  have grows : (new 2 false).capacity ≤ 3 := by decide
  have room : (new 3 false).capacity ≤ 9 := by decide
  refine ⟨overflow, (execute_capacity_mono (new 2 false) grows (some crowded)).2 _ overflow rfl, ?_⟩
  obtain ⟨same, _⟩ := (execute_capacity_mono (new 3 false) room (some crowded)).1 (by
    intro err failed
    obtain rfl := Except.error.inj (mismatch.symm.trans failed)
    decide)
  exact same.trans mismatch

end Machine

end ExprLang
