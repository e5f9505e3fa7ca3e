import ExprLang.Value.Basic

/-! The operand stack. It lies at the left end of a row of cells and grows to the right. A value that is
taken off leaves its cell as it was, so that behind the stack there are values of earlier runs. -/

namespace ExprLang

/-- A stack in the first cells of a row. A cell is added to the row when the stack first reaches it. -/
structure Stack where
  cells : Array Value := #[]
  size : Nat := 0
  inside : size ≤ cells.size := by simp

namespace Stack

/-- The values on the stack, from the bottom up. -/
def values (stack : Stack) : Array Value :=
  stack.cells.take stack.size

/-- The value on top. -/
def back? (stack : Stack) : Option Value :=
  if stack.size = 0 then none else stack.cells[stack.size - 1]?

def pop : Stack → Stack
  | ⟨cells, size, inside⟩ => ⟨cells, size - 1, Nat.le_trans (Nat.sub_le size 1) inside⟩

/-- Puts a value into the first cell behind the stack. -/
def put : Stack → Value → Stack
  | ⟨cells, size, inside⟩, v =>
    { cells := if used : size < cells.size then cells.set size v else cells.push v
      size := size + 1
      inside := by split <;> simp <;> omega }

/-- An empty stack in the same cells. -/
def clear : Stack → Stack
  | ⟨cells, _, _⟩ => ⟨cells, 0, Nat.zero_le _⟩

@[simp] theorem size_pop (stack : Stack) : stack.pop.size = stack.size - 1 := rfl

@[simp] theorem size_put (stack : Stack) (v : Value) : (stack.put v).size = stack.size + 1 := rfl

@[simp] theorem size_values (stack : Stack) : stack.values.size = stack.size := by
  simp [values, stack.inside]

theorem getElem?_values (stack : Stack) (i : Nat) :
    stack.values[i]? = if i < stack.size then stack.cells[i]? else none := by
  simp only [values, Array.take_eq_extract, Array.getElem?_extract, Nat.zero_add, Nat.sub_zero, Nat.min_eq_left stack.inside]

@[simp] theorem back?_values (stack : Stack) : stack.values.back? = stack.back? := by
  rw [Array.back?_eq_getElem?, size_values, getElem?_values, back?]
  by_cases empty : stack.size = 0
  · simp [empty]
  · rw [if_pos (by omega), if_neg empty]

@[simp] theorem values_clear (stack : Stack) : stack.clear.values = #[] := by
  simp [values, clear]

@[simp] theorem values_pop (stack : Stack) : stack.pop.values = stack.values.pop := by
  apply Array.ext_getElem?
  intro i
  have same : stack.pop.cells = stack.cells := rfl
  rw [Array.getElem?_pop, getElem?_values, getElem?_values, size_values, size_pop, same]
  by_cases below : i < stack.size - 1
  · rw [if_pos below, if_pos below, if_pos (by omega)]
  · rw [if_neg below, if_neg below]

@[simp] theorem values_put (stack : Stack) (v : Value) : (stack.put v).values = stack.values.push v := by
  have inside := stack.inside
  apply Array.ext_getElem?
  intro i
  have written : (stack.put v).cells[i]? = if i = stack.size then some v else stack.cells[i]? := by
    simp only [put]
    split
    · rw [Array.getElem?_set]
      grind
    · rw [Array.getElem?_push]
      grind
  rw [Array.getElem?_push, getElem?_values, getElem?_values, size_values, size_put, written]
  grind

end Stack

end ExprLang
