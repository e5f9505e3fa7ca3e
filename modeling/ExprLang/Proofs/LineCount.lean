import ExprLang.Proofs.MaximalMunch

/-! Lines are counted by the line breaks that were read. A break is met between tokens or inside of a string, and nowhere
else, and no other glyph contains the byte of one. So the line of a token is known from the text before its end. -/

namespace ExprLang
open Glyph (spell)

namespace Glyph

/-- How many of the glyphs are line breaks. -/
def breaks (gs : List Glyph) : Nat :=
  gs.countP fun g => g.char = '\n'

theorem breaks_cons_of_ne {g : Glyph} (inside : g.char ≠ '\n') (gs : List Glyph) : breaks (g :: gs) = breaks gs := by
  simp [breaks, inside]

theorem breaks_append (gs hs : List Glyph) : breaks (gs ++ hs) = breaks gs + breaks hs :=
  List.countP_append

theorem breaks_takeWhile {p : Glyph → Bool} (inside : ∀ g, p g = true → g.char ≠ '\n') (gs : List Glyph) :
    breaks (gs.takeWhile p) = 0 := by
  apply List.countP_eq_zero.mpr
  intro g member
  have holds : p g = true := List.all_eq_true.mp List.all_takeWhile g member
  simpa using inside g holds

theorem ne_break_of_digit (g : Glyph) (digit : g.isDigit = true) : g.char ≠ '\n' := by
  intro same
  have bounds := g.isDigit_iff.mp digit
  rw [same] at bounds
  exact absurd bounds.1 (by decide)

theorem ne_break_of_continues (g : Glyph) (continues : g.continuesWord = true) : g.char ≠ '\n' := by
  intro same
  rcases g.continuesWord_iff.mp continues with underscore | letter | digit
  · rw [same] at underscore
    exact absurd underscore (by decide)
  · rw [same, Unicode.isLetter_of_lt (by decide)] at letter
    cases letter
  · rw [same] at digit
    exact absurd digit (by decide)

/-- The byte of a line break occurs only as the glyph of one. -/
theorem Form.count_break {g : Glyph} (form : g.Form) : g.bytes.count 0x0A = breaks [g] := by
  by_cases same : g.char = '\n'
  · rw [form.bytes_eq (by decide) same]
    simp [breaks, same]
  · rw [breaks_cons_of_ne same]
    apply List.count_eq_zero.mpr
    intro member
    exact same ((form.char_eq_iff (by decide) member).mpr rfl)

theorem count_spell {gs : List Glyph} (forms : ∀ g ∈ gs, g.Form) : (spell gs).count 0x0A = breaks gs := by
  induction gs with
  | nil => rfl
  | cons g gs ih =>
    obtain ⟨form, others⟩ := List.forall_mem_cons.mp forms
    rw [spell_cons, List.count_append, form.count_break, ih others, ← breaks_append]
    rfl

end Glyph

namespace Cursor
open Glyph (breaks)

/-- A position behind some of the glyphs, on the line that their breaks lead to. -/
def Counts (gs : List Glyph) (line : Nat) (c : Cursor) : Prop :=
  ∃ taken, gs = taken ++ c.rest ∧ c.line = line + breaks taken

namespace Counts

theorem here (gs : List Glyph) (line : Nat) : Counts gs line ⟨gs, line⟩ :=
  ⟨[], rfl, rfl⟩

/-- Glyphs without a break in front. -/
theorem of_append {front gs : List Glyph} {line : Nat} {c : Cursor} (inside : breaks front = 0) (counts : Counts gs line c) :
    Counts (front ++ gs) line c := by
  obtain ⟨taken, rfl, line⟩ := counts
  refine ⟨front ++ taken, by rw [List.append_assoc], ?_⟩
  rw [line, Glyph.breaks_append, inside, Nat.zero_add]

theorem cons {g : Glyph} {gs : List Glyph} {line : Nat} {c : Cursor} (inside : g.char ≠ '\n') (counts : Counts gs line c) :
    Counts (g :: gs) line c := by
  have none : breaks [g] = 0 := Glyph.breaks_cons_of_ne inside []
  exact of_append none counts

theorem broken {g : Glyph} {gs : List Glyph} {line : Nat} {c : Cursor} (same : g.char = '\n') (counts : Counts gs (line + 1) c) :
    Counts (g :: gs) line c := by
  obtain ⟨taken, rfl, line⟩ := counts
  refine ⟨g :: taken, rfl, ?_⟩
  rw [line]
  simp only [breaks, List.countP_cons, same, decide_true, if_true]
  omega

theorem trans {gs : List Glyph} {line : Nat} {c d : Cursor} (first : Counts gs line c) (second : Counts c.rest c.line d) :
    Counts gs line d := by
  obtain ⟨taken, rfl, here⟩ := first
  obtain ⟨more, behind, there⟩ := second
  refine ⟨taken ++ more, by rw [behind, List.append_assoc], ?_⟩
  rw [there, here, Glyph.breaks_append, Nat.add_assoc]

theorem le {gs : List Glyph} {line : Nat} {c : Cursor} (counts : Counts gs line c) : line ≤ c.line := by
  obtain ⟨taken, _, same⟩ := counts
  omega

end Counts

theorem skipBlanks_counts (inComment : Bool) (gs : List Glyph) (line : Nat) : Counts gs line (skipBlanks inComment gs line) := by
  induction gs generalizing inComment line with
  | nil => exact .here [] line
  | cons g gs ih =>
    rw [skipBlanks]
    split
    next breaks => exact .broken breaks (ih false (line + 1))
    next inside =>
      split
      · exact .cons inside (ih inComment line)
      · split
        · exact .cons inside (ih true line)
        · exact .here (g :: gs) line

/-- No break is left in front: skipping would have gone over it. -/
theorem skipBlanks_stops (inComment : Bool) (gs : List Glyph) (line : Nat) :
    ∀ g ∈ (skipBlanks inComment gs line).rest.head?, g.char ≠ '\n' := by
  induction gs generalizing inComment line with
  | nil => simp [skipBlanks]
  | cons h gs ih =>
    rw [skipBlanks]
    split
    · exact ih false (line + 1)
    next inside =>
      split
      · exact ih inComment line
      · split
        · exact ih true line
        · simpa using inside

section Scanning
variable {g : Glyph} (inside : g.char ≠ '\n') (rest : List Glyph) (line : Nat)
include inside

private theorem while_counts {p : Glyph → Bool} (none : ∀ h, p h = true → h.char ≠ '\n') :
    Counts (g :: rest) line ⟨rest.dropWhile p, line⟩ := by
  have front := Counts.of_append (Glyph.breaks_takeWhile none rest) (.here (rest.dropWhile p) line)
  rw [List.takeWhile_append_dropWhile] at front
  exact front.cons inside

private theorem number_counts : Counts (g :: rest) line (number g rest line).2 := by
  have whole := while_counts inside rest line Glyph.ne_break_of_digit
  unfold number
  simp only
  split
  next point d more after =>
    split
    next fraction =>
      obtain ⟨sign, digit⟩ : point.char = '.' ∧ d.isDigit = true := by simpa using fraction
      have solid : point.char ≠ '\n' := by
        rw [sign]
        decide
      apply whole.trans
      rw [after]
      exact (while_counts (d.ne_break_of_digit digit) more line Glyph.ne_break_of_digit).cons solid
    · exact whole
  · exact whole

private theorem string_counts : Counts (g :: rest) line (string g rest line).2 := by
  -- All breaks of a string stand before its closing quote.
  have split := List.takeWhile_append_dropWhile (p := fun h : Glyph => decide (h.char ≠ '"')) (l := rest)
  unfold string
  simp only
  split
  next ended =>
    rw [ended, List.append_nil] at split
    refine Counts.cons inside ⟨rest, by simp, ?_⟩
    rw [split, breaks]
  next close after found =>
    have quote : close.char = '"' := by
      have stops := List.head?_dropWhile_not (fun h : Glyph => decide (h.char ≠ '"')) rest
      rw [found] at stops
      simpa using stops
    have solid : close.char ≠ '\n' := by
      rw [quote]
      decide
    refine Counts.cons inside ⟨rest.takeWhile (fun h => h.char ≠ '"') ++ [close], ?_, ?_⟩
    · rw [List.append_assoc, List.singleton_append, ← found, split]
    · rw [Glyph.breaks_append, Glyph.breaks_cons_of_ne solid]
      rfl

private theorem symbol_counts : Counts (g :: rest) line (symbol g rest line).2 := by
  have short : Counts (g :: rest) line ⟨rest, line⟩ := .cons inside (.here rest line)
  unfold symbol
  split
  · exact short
  next h after _ _ =>
    split
    next equals =>
      have solid : h.char ≠ '\n' := by
        rw [equals]
        decide
      exact .cons inside (.cons solid (.here after line))
    · exact short
  · exact short

theorem scan_counts : Counts (g :: rest) line (scan g rest line).2 := by
  unfold scan
  split
  · exact while_counts inside rest line Glyph.ne_break_of_continues
  · split
    · exact number_counts inside rest line
    · split
      · exact string_counts inside rest line
      · exact symbol_counts inside rest line

end Scanning

/-- A token is on the line at which reading goes on behind it. -/
theorem scan_line (g : Glyph) (rest : List Glyph) (line : Nat) : (scan g rest line).1.line = (scan g rest line).2.line := by
  unfold scan
  split
  · rfl
  · split
    · unfold number
      simp only
      split
      · split <;> rfl
      · rfl
    · split
      · unfold string
        simp only
        split <;> rfl
      · unfold symbol
        split
        · rfl
        · split <;> rfl
        · rfl

theorem next_counts (c : Cursor) : Counts c.rest c.line c.next.2 := by
  have skipped := skipBlanks_counts false c.rest c.line
  have stops := skipBlanks_stops false c.rest c.line
  unfold next
  split
  next line ended =>
    rw [ended] at skipped
    exact skipped
  next g rest line same =>
    rw [same] at skipped stops
    exact skipped.trans (scan_counts (stops g rfl) rest line)

theorem next_line (c : Cursor) : c.next.1.line = c.next.2.line := by
  unfold next
  split
  · rfl
  · exact scan_line _ _ _

theorem after_counts (c : Cursor) (n : Nat) : Counts c.rest c.line (c.after n) := by
  induction n with
  | zero => exact .here c.rest c.line
  | succ n ih => exact ih.trans (c.after n).next_counts

theorem after_line_le (c : Cursor) {m n : Nat} (later : m ≤ n) : (c.after m).line ≤ (c.after n).line := by
  induction later with
  | refl => exact Nat.le_refl _
  | step _ ih => exact Nat.le_trans ih (Cursor.next_counts _).le

/-- The text that was read, and the line that its breaks lead to. -/
theorem after_reads (source : Text) (n : Nat) :
    ∃ read, source = read ++ ((start source).after n).unread ∧ ((start source).after n).line = 1 + read.count 0x0A := by
  obtain ⟨taken, split, line⟩ := (start source).after_counts n
  have forms : ∀ g ∈ taken, g.Form := by
    intro g member
    apply Text.glyphs_form source
    rw [show source.glyphs = taken ++ ((start source).after n).rest from split]
    exact List.mem_append_left _ member
  refine ⟨spell taken, ?_, ?_⟩
  · rw [unread, ← Glyph.spell_append, ← split]
    exact source.spell_glyphs.symm
  · rw [line, Glyph.count_spell forms]
    rfl

end Cursor

theorem Lexeme.closing_quote {k : TokenKind} {s : Text} (lexeme : Lexeme k s) (string : k = .string) :
    ∃ body, s = body ++ [0x22] := by
  have words : ∀ w ∈ TokenKind.words, w.1 ≠ .string := by decide
  have operators : ∀ w ∈ TokenKind.operators, w.1 ≠ .string := by decide
  cases lexeme with
  | reserved listed => exact absurd string (words _ listed)
  | operator listed => exact absurd string (operators _ listed)
  | identifier | integer | double => cases string
  | @string body => exact ⟨0x22 :: body, rfl⟩

theorem Cut.closing_quote {text : Text} {k : TokenKind} {lexeme taken : Text} (cut : Cut text k lexeme taken)
    (string : k = .string) : ∃ body, taken = body ++ [0x22] := by
  cases cut with
  | token lexeme _ => exact lexeme.closing_quote string
  | ended | unterminated | unexpected => cases string

/-- The line of a token is one more than the number of line breaks before its end, so that a string is on the line of its
closing quote. Along the tokens of a program lines never decrease. -/
theorem token_lines_count_breaks (source : Text) :
    let unread (n : Nat) : Text := ((Cursor.start source).after n).unread
    let call (n : Nat) : Token := ((Cursor.start source).after n).next.1
    (∀ n, ∃ read, source = read ++ unread (n + 1) ∧ (call n).line = 1 + read.count 0x0A ∧
      ((call n).kind = .string → ∃ before, read = before ++ [0x22] ∧ (call n).line = 1 + before.count 0x0A)) ∧
    ∀ m n, m ≤ n → (call m).line ≤ (call n).line := by
  intro unread call
  have line (n : Nat) : (call n).line = ((Cursor.start source).after (n + 1)).line := Cursor.next_line _
  refine ⟨?_, ?_⟩
  · intro n
    obtain ⟨read, whole, counted⟩ := Cursor.after_reads source (n + 1)
    refine ⟨read, whole, (line n).trans counted, ?_⟩
    intro string
    obtain ⟨earlier, front, _⟩ := Cursor.after_reads source n
    obtain ⟨blanks, taken, behind, _, cut⟩ := ((Cursor.start_aligned source).after n).cuts
    obtain ⟨body, rfl⟩ := cut.closing_quote string
    have same : read = earlier ++ (blanks ++ body) ++ [0x22] := by
      apply List.append_cancel_right (whole.symm.trans _)
      rw [behind] at front
      simpa [Cursor.after] using front
    refine ⟨earlier ++ (blanks ++ body), same, ?_⟩
    rw [line n, counted, same, List.count_append]
    simp
  · intro m n later
    rw [line m, line n]
    exact Cursor.after_line_le _ (Nat.succ_le_succ later)

end ExprLang
