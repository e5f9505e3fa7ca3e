import ExprLang.Proofs.LineCount
import ExprLang.Proofs.Recovery

/-! Diagnostics come in the order of the program. A problem may be reported at the token just passed, at the next one, or at
an error token that lies between the two. But a panic ends only between statements, and a statement takes a token before it
can report anything. So what is reported next is never before the token that was current when the panic ended. -/

namespace ExprLang
open Token (Closed)

namespace Token

def Ascending (ts : List Token) : Prop :=
  ts.Pairwise fun t u => t.line ≤ u.line

theorem ascending_all (source : Text) : Ascending (Token.all source) := by
  obtain ⟨_, _, _, reads⟩ := all_calls source
  rw [reads, Ascending, Cursor.calls, List.pairwise_map]
  apply List.pairwise_lt_range.imp
  intro m n earlier
  rw [Cursor.next_line, Cursor.next_line]
  exact (Cursor.start source).after_line_le (Nat.succ_le_succ (Nat.le_of_lt earlier))

theorem line_bounds (source : Text) : ∀ t ∈ Token.all source, 1 ≤ t.line ∧ t.line ≤ 1 + source.count 0x0A := by
  intro t member
  obtain ⟨_, _, _, reads⟩ := all_calls source
  rw [reads] at member
  obtain ⟨n, _, rfl⟩ := List.mem_map.mp member
  obtain ⟨read, whole, line⟩ := Cursor.after_reads source (n + 1)
  have inside : read.count 0x0A ≤ source.count 0x0A := by
    rw [whole, List.count_append]
    exact Nat.le_add_right _ _
  rw [Cursor.next_line, show ((Cursor.start source).after n).next.2.line = 1 + read.count 0x0A from line]
  omega

end Token

namespace Parser

/-- Nothing was reported, or the first problem of a panic on a line from `low` up to that of the current token. -/
def Adds (low : Nat) (p q : Parser) : Prop :=
  (q.panicking = p.panicking ∧ q.diagnostics = p.diagnostics) ∨
  (p.panicking = false ∧ q.panicking = true ∧
    ∃ d, q.diagnostics = p.diagnostics.push d ∧ low ≤ d.line ∧ d.line ≤ q.current.line)

theorem report_adds {p : Parser} {t : Token} {low : Nat} (above : low ≤ t.line) (below : t.line ≤ p.current.line)
    (problem : Problem) : Adds low p (p.report t problem) := by
  cases panics : p.panicking with
  | true =>
    rw [report_of_panicking p t problem panics]
    exact Or.inl ⟨rfl, rfl⟩
  | false =>
    refine Or.inr ⟨panics, report_panicking p t problem, _, report_calm p t problem panics, above, ?_⟩
    rw [report_current]
    exact below

theorem Adds.trans {low : Nat} {p q r : Parser} (first : Adds low p q) (second : Adds low q r)
    (further : q.current.line ≤ r.current.line) : Adds low p r := by
  rcases first with ⟨flag, same⟩ | ⟨calm, panics, d, more, above, below⟩
  · rcases second with ⟨flag', same'⟩ | ⟨calm', panics', d', more', bounds⟩
    · exact Or.inl ⟨flag'.trans flag, same'.trans same⟩
    · exact Or.inr ⟨flag ▸ calm', panics', d', by rw [more', same], bounds⟩
  · rcases second with ⟨flag', same'⟩ | ⟨calm', _⟩
    · exact Or.inr ⟨calm, flag'.trans panics, d, same'.trans more, above, Nat.le_trans below further⟩
    · simp [panics] at calm'

/-- The parser has taken its current token, and perhaps more, and reported nothing that stands before it. -/
structure GoesOn (p q : Parser) : Prop where
  entered : p.current.line ≤ q.previous.line
  window : q.previous.line ≤ q.current.line
  adds : Adds p.current.line p q

namespace GoesOn

theorem advance {p : Parser} (closed : Closed p.upcoming) (ascending : Token.Ascending p.upcoming) : GoesOn p p.advance := by
  rcases advance_cases closed with ⟨_, _, same⟩ | ⟨_, errors, t, rest, front, _, _, same⟩
  · rw [same]
    exact ⟨Nat.le_refl _, Nat.le_refl _, Or.inl ⟨rfl, rfl⟩⟩
  · have tokens : p.upcoming = p.current :: errors ++ t :: rest := by rw [upcoming, front, List.cons_append]
    rw [tokens, Token.Ascending, List.pairwise_append] at ascending
    obtain ⟨inside, _, across⟩ := ascending
    rw [same]
    refine ⟨Nat.le_refl _, across _ List.mem_cons_self _ List.mem_cons_self, ?_⟩
    cases errors with
    | nil => exact Or.inl ⟨rfl, rfl⟩
    | cons e errors =>
      -- The first of the error tokens stands between the two tokens of the window.
      have above : p.current.line ≤ e.line := List.rel_of_pairwise_cons inside List.mem_cons_self
      have below : e.line ≤ t.line := across e (by simp) t List.mem_cons_self
      cases panics : p.panicking with
      | true =>
        refine Or.inl ⟨?_, ?_⟩
        · simp [passTo, reportFirst, panics]
        · simp [passTo, reportFirst, report_of_panicking, panics]
      | false => exact Or.inr ⟨panics, by simp [passTo, reportFirst], _, report_calm p e _ panics, above, below⟩

theorem trans {p q r : Parser} (first : GoesOn p q) (second : GoesOn q r) : GoesOn p r := by
  have above : p.current.line ≤ q.current.line := Nat.le_trans first.entered first.window
  have further : q.current.line ≤ r.current.line := Nat.le_trans second.entered second.window
  refine ⟨Nat.le_trans above second.entered, second.window, ?_⟩
  apply first.adds.trans ?_ further
  rcases second.adds with same | ⟨calm, panics, d, more, after, before⟩
  · exact Or.inl same
  · exact Or.inr ⟨calm, panics, d, more, Nat.le_trans above after, before⟩

theorem report {p q : Parser} {t : Token} (goes : GoesOn p q) (near : t = q.previous ∨ t = q.current) (problem : Problem) :
    GoesOn p (q.report t problem) := by
  have bounds : p.current.line ≤ t.line ∧ t.line ≤ q.current.line := by
    rcases near with rfl | rfl
    · exact ⟨goes.entered, goes.window⟩
    · exact ⟨Nat.le_trans goes.entered goes.window, Nat.le_refl _⟩
  refine ⟨?_, ?_, goes.adds.trans (report_adds bounds.1 bounds.2 problem) ?_⟩
  · simpa using goes.entered
  · simpa using goes.window
  · simp

end GoesOn

theorem Reaches.goesOn {p q : Parser} (moves : Reaches p.advance q) (closed : Closed p.upcoming)
    (ascending : Token.Ascending p.upcoming) : GoesOn p q := by
  induction moves with
  | refl => exact .advance closed ascending
  | advance moves ih =>
    have whole := (reaches_advance p).trans moves
    exact ih.trans (.advance (whole.closed closed) (ascending.sublist (whole.upcoming_suffix closed).sublist))
  | report _ near ih => exact ih.report near _
  | pool _ _ ih => exact ⟨ih.entered, ih.window, ih.adds⟩

/-- What was reported is in order, and nothing of it stands behind the current token. -/
structure InOrder (low high : Nat) (p : Parser) : Prop where
  ahead : Token.Ascending p.upcoming
  bounded : ∀ t ∈ p.upcoming, low ≤ t.line ∧ t.line ≤ high
  sorted : p.diagnostics.toList.Pairwise fun d e => d.line ≤ e.line
  behind : ∀ d ∈ p.diagnostics.toList, low ≤ d.line ∧ d.line ≤ p.current.line

namespace InOrder
variable {low high : Nat}

theorem reaches {p q : Parser} (ordered : InOrder low high p) (closed : Closed p.upcoming) (moves : Reaches p.advance q) :
    InOrder low high q := by
  have goes := moves.goesOn closed ordered.ahead
  have suffix := ((reaches_advance p).trans moves).upcoming_suffix closed
  have further : p.current.line ≤ q.current.line := Nat.le_trans goes.entered goes.window
  have begun : low ≤ p.current.line := (ordered.bounded p.current List.mem_cons_self).1
  have kept : ∀ d ∈ p.diagnostics.toList, low ≤ d.line ∧ d.line ≤ q.current.line := by
    intro d member
    have bounds := ordered.behind d member
    exact ⟨bounds.1, Nat.le_trans bounds.2 further⟩
  have ahead := ordered.ahead.sublist suffix.sublist
  have bounded : ∀ t ∈ q.upcoming, low ≤ t.line ∧ t.line ≤ high := fun t member => ordered.bounded t (suffix.subset member)
  rcases goes.adds with ⟨_, same⟩ | ⟨_, _, d, more, above, below⟩
  · refine ⟨ahead, bounded, ?_, ?_⟩
    · rw [same]
      exact ordered.sorted
    · rw [same]
      exact kept
  · refine ⟨ahead, bounded, ?_, ?_⟩
    · rw [more, Array.toList_push, List.pairwise_append]
      refine ⟨ordered.sorted, List.pairwise_singleton _ d, ?_⟩
      intro e earlier f last
      rw [List.mem_singleton.mp last]
      exact Nat.le_trans (ordered.behind e earlier).2 above
    · rw [more, Array.toList_push]
      intro e member
      rcases List.mem_append.mp member with earlier | last
      · exact kept e earlier
      · rw [List.mem_singleton.mp last]
        exact ⟨Nat.le_trans begun above, below⟩

theorem start {tokens : List Token} (closed : Closed tokens) (ascending : Token.Ascending tokens)
    (bounded : ∀ t ∈ tokens, low ≤ t.line ∧ t.line ≤ high) : InOrder low high (Parser.start tokens) := by
  rcases start_cases closed with ⟨t, rest, rfl, _, ready⟩ | ⟨e, errors, t, rest, rfl, _, _, ready⟩
  · rw [ready]
    exact ⟨ascending, bounded, List.Pairwise.nil, by simp⟩
  · rw [ready]
    obtain ⟨_, ahead, across⟩ := List.pairwise_append.mp ascending
    refine ⟨ahead, fun u member => bounded u (List.mem_append_right _ member), List.pairwise_singleton _ _, ?_⟩
    intro d member
    rw [List.mem_singleton.mp member]
    exact ⟨(bounded e (by simp)).1, across e (by simp) t List.mem_cons_self⟩

end InOrder

theorem skip_cases (fuel : Nat) (p : Parser) : skip fuel p = p ∨ Reaches p.advance (skip fuel p) := by
  cases fuel with
  | zero => exact Or.inl rfl
  | succ fuel =>
    rw [skip]
    split
    · exact Or.inl rfl
    · exact Or.inr (skip_reaches fuel p.advance)

theorem InOrder.settle {low high : Nat} {p : Parser} (ordered : InOrder low high p) (closed : Closed p.upcoming) (fuel : Nat) :
    InOrder low high (settle fuel p) := by
  unfold Parser.settle
  split
  · have calmed : InOrder low high { p with panicking := false } := ⟨ordered.ahead, ordered.bounded, ordered.sorted, ordered.behind⟩
    rw [recover]
    rcases skip_cases fuel { p with panicking := false } with same | moves
    · rw [same]
      exact calmed
    · exact calmed.reaches closed moves
  · exact ordered

theorem Visits.inOrder {tokens : List Token} {low high : Nat} (closed : Closed tokens) (ascending : Token.Ascending tokens)
    (bounded : ∀ t ∈ tokens, low ≤ t.line ∧ t.line ≤ high) {fuel : Nat} {p : Parser} (visited : Visits tokens fuel p) :
    InOrder low high p := by
  induction visited with
  | start => exact .start closed ascending bounded
  | @next fuel p visited more ih =>
    have here := (visited.ready closed).closed
    have kept := ih.reaches here (statement_takes p (Nat.succ_pos fuel))
    exact kept.settle ((statement_reaches (fuel + 1) p).closed here) (fuel + 1)

end Parser

/-- Diagnostics are sorted by their lines, and these are lines of the program. -/
theorem diagnostics_in_order {source : Text} {ds : List Diagnostic} (failed : compile source = .error ds) :
    (ds.map Diagnostic.line).Pairwise (· ≤ ·) ∧ ∀ d ∈ ds, 1 ≤ d.line ∧ d.line ≤ 1 + source.count 0x0A := by
  have closed := Token.closed_all source
  obtain ⟨_, q, all, visited, _, final⟩ := Parser.Visits.ends closed .start #[]
  have ordered := visited.inOrder closed (Token.ascending_all source) (Token.line_bounds source)
  have same : q.diagnostics.toList = ds := by
    have reported := (diagnostics_of_compile failed).1
    rwa [show Parser.statements (Parser.fuelFor (Token.all source)) #[] _ = _ from final] at reported
  rw [← same]
  refine ⟨List.pairwise_map.mpr ordered.sorted, ?_⟩
  intro d member
  have bounds := ordered.behind d member
  exact ⟨bounds.1, Nat.le_trans bounds.2 (ordered.bounded q.current List.mem_cons_self).2⟩

theorem recovered_problems_in_order :
    ∃ ds, compile (utf8 "(1;\n2 3;\n* @") = .error ds ∧ ds.map Diagnostic.line = [1, 2, 3] ∧
      (ds.map Diagnostic.line).Pairwise (· ≤ ·) ∧ ∀ d ∈ ds, 1 ≤ d.line ∧ d.line ≤ 3 := by
  have failed : compile (utf8 "(1;\n2 3;\n* @") =
      .error [⟨⟨.semicolon, utf8 ";", 1⟩, .expectParen⟩, ⟨⟨.integer, utf8 "3", 2⟩, .expectSemicolon⟩,
        ⟨⟨.error, utf8 "Unexpected character '@'.", 3⟩, .lexical (utf8 "Unexpected character '@'.")⟩] := by cbv
  have breaks : (utf8 "(1;\n2 3;\n* @").count 0x0A = 2 := by decide
  obtain ⟨sorted, bounds⟩ := diagnostics_in_order failed
  rw [breaks] at bounds
  exact ⟨_, failed, rfl, sorted, bounds⟩

end ExprLang
