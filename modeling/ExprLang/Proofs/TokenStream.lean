import ExprLang.Token.Cursor

/-! The tokens of a program end with the end token, and it stands nowhere else among them. A reader
that stops there has therefore seen all of them. -/

namespace ExprLang.Token

/-- The last token is the end token, and no other is. -/
def Closed : List Token → Prop
  | [] => False
  | t :: rest => if t.kind = .eof then rest = [] else Closed rest

theorem Closed.rest_eq_nil {t : Token} {rest : List Token} (closed : Closed (t :: rest))
    (ended : t.kind = .eof) : rest = [] := by
  simpa [Closed, ended] using closed

theorem Closed.rest_closed {t : Token} {rest : List Token} (closed : Closed (t :: rest))
    (more : t.kind ≠ .eof) : Closed rest := by
  simpa [Closed, more] using closed

theorem Closed.of_append {front rest : List Token} (closed : Closed (front ++ rest))
    (inside : ∀ t ∈ front, t.kind ≠ .eof) : Closed rest := by
  induction front with
  | nil => exact closed
  | cons t front ih =>
    exact ih (closed.rest_closed (inside t (by simp))) (fun u member => inside u (by simp [member]))

private theorem readInto_closed (read : Array Token) (c : Cursor) :
    ∃ ts, (readInto read c).toList = read.toList ++ ts ∧ Closed ts := by
  induction read, c using readInto.induct with
  | case1 read c t after same ended =>
    rw [readInto]
    split
    next u later equal =>
      obtain ⟨rfl, rfl⟩ := Prod.mk.injEq .. ▸ (equal.symm.trans same)
      refine ⟨[u], by simp [ended], by simp [Closed, ended]⟩
  | case2 read c t after same more ih =>
    obtain ⟨ts, reads, closed⟩ := ih
    rw [readInto]
    split
    next u later equal =>
      obtain ⟨rfl, rfl⟩ := Prod.mk.injEq .. ▸ (equal.symm.trans same)
      refine ⟨u :: ts, by simp [more, reads], by simp [Closed, more, closed]⟩

theorem closed_all (source : Text) : Closed (Token.all source) := by
  obtain ⟨ts, reads, closed⟩ := readInto_closed #[] (Cursor.start source)
  have same : Token.all source = ts := by simpa [Token.all] using reads
  exact same ▸ closed

end ExprLang.Token
