import ExprLang.Proofs.MachineSafety

/-! Two runs of one chunk side by side. A step sees of its stack the values on it, never the cells behind them, and of
the capacity whether there is room for one more value. So two runs whose stacks hold the same values go together, and a
larger capacity makes no difference until the smaller one overflows. -/

namespace ExprLang

/-- Two effects of one instruction, the second one under a larger capacity perhaps. The first overflow sets them apart. -/
inductive Effect.Matches (capacity larger : Nat) : Effect → Effect → Prop
  | same {s t : Stack} {fault? : Option Fault} : s.values = t.values → Matches capacity larger ⟨s, fault?⟩ ⟨t, fault?⟩
  | full {s : Stack} {e : Effect} : capacity < larger → Matches capacity larger ⟨s, some (.stackOverflow capacity)⟩ e

namespace Stack

variable {s t : Stack} (same : s.values = t.values)
include same

theorem size_eq : s.size = t.size := by
  rw [← size_values s, ← size_values t, same]

theorem back?_eq : s.back? = t.back? := by
  rw [← back?_values s, ← back?_values t, same]

theorem pop_eq : s.pop.values = t.pop.values := by
  rw [values_pop, values_pop, same]

variable {capacity larger : Nat} (grows : capacity ≤ larger)
include grows

theorem push_matches (v : Value) : (s.push capacity v).Matches capacity larger (t.push larger v) := by
  have height := size_eq same
  unfold push
  by_cases room : s.size < capacity
  · rw [if_pos room, if_pos (by omega)]
    exact .same (by rw [values_put, values_put, same])
  · rw [if_neg room]
    rcases Nat.eq_or_lt_of_le grows with rfl | more
    · rw [if_neg (by omega)]
      exact .same same
    · exact .full more

theorem unary_matches (f : Value → Except Fault Value) :
    (s.unary capacity f).Matches capacity larger (t.unary larger f) := by
  unfold unary
  rw [back?_eq same]
  split
  · exact .same same
  · split
    · exact .same (pop_eq same)
    · exact push_matches (pop_eq same) grows _

theorem binary_matches (f : Value → Value → Except Fault Value) :
    (s.binary capacity f).Matches capacity larger (t.binary larger f) := by
  simp only [binary]
  rw [back?_eq same, back?_eq (pop_eq same)]
  split
  · exact .same same
  · split
    · exact .same (pop_eq same)
    · split
      · exact .same (pop_eq (pop_eq same))
      · exact push_matches (pop_eq (pop_eq same)) grows _

omit grows in
theorem drop_matches : s.drop.Matches capacity larger t.drop := by
  unfold drop
  rw [back?_eq same]
  split
  · exact .same same
  · exact .same (pop_eq same)

theorem effect_matches (op : Opcode) : (op.effect capacity s).Matches capacity larger (op.effect larger t) := by
  cases op with
  | constant => exact .same same
  | pushNil | pushTrue | pushFalse => exact push_matches same grows _
  | negate => exact unary_matches same grows _
  | not => exact unary_matches same grows fun v => .ok (.bool v.countsAsFalse)
  | add | subtract | multiply | divide | greater | less => exact binary_matches same grows _
  | equal => exact binary_matches same grows fun a b => .ok (.bool (a.equal b))
  | pop | ret => exact drop_matches same

theorem load_matches (c : Chunk) (ip : Nat) : (c.load capacity ip s).Matches capacity larger (c.load larger ip t) := by
  unfold Chunk.load
  split
  · exact .same same
  · split
    · exact .same same
    · exact push_matches same grows _

end Stack

namespace Chunk

/-- Two steps from one offset. -/
inductive StepsMatch (c : Chunk) (capacity larger ip : Nat) : Step → Step → Prop
  | next {ip' : Nat} {s t : Stack} : s.values = t.values → StepsMatch c capacity larger ip (.next ip' s) (.next ip' t)
  | halt {outcome : Except RuntimeError Value} {s t : Stack} :
      s.values = t.values → StepsMatch c capacity larger ip (.halt outcome s) (.halt outcome t)
  | full {byte : UInt8} {s : Stack} {other : Step} :
      capacity < larger → StepsMatch c capacity larger ip (.halt (c.failure ip byte (.stackOverflow capacity)) s) other

variable {c : Chunk} {capacity larger : Nat} {s t : Stack}

theorem proceed_matches {ip ip' : Nat} {byte : UInt8} {e f : Effect} (matching : e.Matches capacity larger f) :
    c.StepsMatch capacity larger ip (c.proceed ip byte ip' e) (c.proceed ip byte ip' f) := by
  cases matching with
  | @same s t fault? same =>
    cases fault? with
    | none => exact .next same
    | some fault => exact .halt same
  | full more => exact .full more

theorem step_matches (same : s.values = t.values) (grows : capacity ≤ larger) (ip : Nat) :
    c.StepsMatch capacity larger ip (c.step capacity ip s) (c.step larger ip t) := by
  unfold step
  rw [Stack.back?_eq same]
  split
  · exact .halt same
  · split
    · exact .halt same
    · exact proceed_matches (Stack.load_matches same grows c ip)
    · split
      · exact .halt same
      · exact .halt (Stack.pop_eq same)
    · exact proceed_matches (Stack.effect_matches same grows _)

end Chunk

/-- Two runs. They end alike, or the first one overflows and the second gets at least as far. -/
inductive Run.Matches (capacity larger : Nat) : Run → Run → Prop
  | same {outcome : Except RuntimeError Value} {s t : Stack} {trace : List TraceEntry} :
      s.values = t.values → Matches capacity larger ⟨outcome, s, trace⟩ ⟨outcome, t, trace⟩
  | full {err : RuntimeError} {s : Stack} {trace : List TraceEntry} {other : Run} :
      capacity < larger → err.fault = .stackOverflow capacity →
      (∀ err', other.outcome = .error err' → err.offset ≤ err'.offset) →
      Matches capacity larger ⟨.error err, s, trace⟩ other

namespace Chunk

variable {c : Chunk} {capacity larger : Nat} {s t : Stack}

/-- A run that fails does so where it started or further on. -/
theorem le_offset {tracing : Bool} {traced : Array TraceEntry} {ip : Nat} {err : RuntimeError}
    (failed : (c.runFrom capacity tracing traced ip s).outcome = .error err) : ip ≤ err.offset := by
  obtain ⟨n, last, final, reaches, stops, _⟩ := c.runFrom_ends capacity tracing traced ip s
  have further := reaches.le
  have leads := c.step_leads capacity last final
  rw [stops, failed] at leads
  generalize same : Except.error err = outcome at leads
  cases leads with
  | result => cases same
  | fault | ended =>
    obtain rfl := Except.error.inj same
    exact Nat.le_trans (Nat.le_add_right ip n) further

theorem note_eq (same : s.values = t.values) (tracing : Bool) (traced : Array TraceEntry) (ip : Nat) :
    c.note tracing traced ip s = c.note tracing traced ip t := by
  simp only [note, TraceEntry.before, TraceEntry.stackLine, same]

theorem runFrom_matches (same : s.values = t.values) (grows : capacity ≤ larger) (tracing : Bool)
    (traced : Array TraceEntry) (ip : Nat) :
    (c.runFrom capacity tracing traced ip s).Matches capacity larger (c.runFrom larger tracing traced ip t) := by
  induction remaining : c.code.size - ip using Nat.strongRecOn generalizing traced ip s t with
  | _ rest ih =>
    have noted := note_eq (c := c) same tracing traced ip
    have matching := c.step_matches same grows ip
    generalize first : c.step capacity ip s = left at matching
    generalize second : c.step larger ip t = right at matching
    cases matching with
    | next same' =>
      have further := lt_of_step first
      rw [runFrom_next first, runFrom_next second, noted]
      exact ih _ (by omega) same' _ _ rfl
    | halt same' =>
      rw [runFrom_halt first, runFrom_halt second, noted]
      exact .same same'
    | full more =>
      rw [runFrom_halt first]
      exact .full more rfl fun err' failed => le_offset failed

end Chunk

end ExprLang
