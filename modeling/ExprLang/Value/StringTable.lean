import ExprLang.Text.Quoted
import ExprLang.Value.Basic

/-! Tables of strings. Interning gives equal texts the same entry, and entries stay in the order of
their first occurrence. -/

namespace ExprLang

structure StringTable where
  entries : Array Text
  distinct : entries.toList.Nodup
  deriving DecidableEq

/-- The kinds of table entries by their codes. There is one kind. -/
def objectKindOfCode (n : Nat) : String :=
  if n = 1 then "string" else "ObjectKind(" ++ toString n ++ ")"

namespace StringTable

instance : EmptyCollection StringTable := ⟨⟨#[], List.nodup_nil⟩⟩

instance : Inhabited StringTable := ⟨{}⟩

def size (t : StringTable) : Nat :=
  t.entries.size

def get? (t : StringTable) (ref : UInt32) : Option Text :=
  t.entries[ref.toNat]?

/-- The entry of a text, in the table with the text added if it is new. -/
def intern (t : StringTable) (s : Text) : Nat × StringTable :=
  match found : t.entries.idxOf? s with
  | some i => (i, t)
  | none =>
    (t.size, {
      entries := t.entries.push s
      distinct := by
        have fresh : s ∉ t.entries := by simpa using found
        have kept := t.distinct
        simp only [Array.toList_push, List.nodup_append, List.mem_singleton]
        refine ⟨kept, by simp, ?_⟩
        rintro a inside b rfl rfl
        exact fresh (by simpa using inside) })

/-- The value that refers to an entry. -/
def valueAt (i : Nat) : Value :=
  .object (UInt32.ofNat i).toUInt64

/-- A string value resolves if its entry exists; other values need none. -/
def contains (t : StringTable) : Value → Bool
  | .object w => (t.get? w.toUInt32).isSome
  | _ => true

/-- A value as text, a reference resolved where possible. -/
def format (t : StringTable) (v : Value) : Text :=
  match v with
  | .object w => (t.get? w.toUInt32).getD v.text
  | _ => v.text

/-- As `format`, with strings in quotes. -/
def quote (t : StringTable) (v : Value) : Text :=
  match v with
  | .object w => ((t.get? w.toUInt32).map Text.quoted).getD v.text
  | _ => v.text

end StringTable

end ExprLang
