import ExprLang.Proofs.BlankRuns
import ExprLang.Proofs.LongestToken

/-! A program is cut into tokens by maximal munch. Call by call the longest run of blanks is skipped and the longest token
behind it is taken, until nothing is left; from then on there are only end tokens. -/

namespace ExprLang
open Glyph (spell)

namespace Cursor

theorem skipBlanks_suffix (inComment : Bool) (gs : List Glyph) (line : Nat) : (skipBlanks inComment gs line).rest <:+ gs := by
  induction gs generalizing inComment line with
  | nil => exact List.suffix_rfl
  | cons g gs ih =>
    rw [skipBlanks]
    split
    · exact (ih _ _).trans (List.suffix_cons g gs)
    · split
      · exact (ih _ _).trans (List.suffix_cons g gs)
      · split
        · exact (ih _ _).trans (List.suffix_cons g gs)
        · exact List.suffix_rfl

theorem scan_suffix (g : Glyph) (rest : List Glyph) (line : Nat) : (scan g rest line).2.rest <:+ rest := by
  unfold scan
  split
  · exact List.dropWhile_suffix _
  split
  · unfold number
    simp only
    split
    next point d more after =>
      split
      · have inside : more <:+ rest := by
          have behind := List.dropWhile_suffix Glyph.isDigit (l := rest)
          rw [after] at behind
          exact ((List.suffix_cons d more).trans (List.suffix_cons point _)).trans behind
        exact (List.dropWhile_suffix _).trans inside
      · exact List.dropWhile_suffix _
    · exact List.dropWhile_suffix _
  split
  · unfold string
    simp only
    split
    · exact List.nil_suffix
    next close after found =>
      have behind := List.dropWhile_suffix (fun h : Glyph => decide (h.char ≠ '"')) (l := rest)
      rw [found] at behind
      exact (List.suffix_cons close after).trans behind
  · unfold symbol
    split
    · exact List.suffix_rfl
    · split
      · exact List.suffix_cons _ _
      · exact List.suffix_rfl
    · exact List.suffix_rfl

theorem next_suffix (c : Cursor) : c.next.2.rest <:+ c.rest := by
  have skipped := skipBlanks_suffix false c.rest c.line
  unfold next
  split
  · exact List.nil_suffix
  next g rest line same =>
    rw [same] at skipped
    exact ((scan_suffix g rest line).trans (List.suffix_cons g rest)).trans skipped

/-- The glyphs before a cursor are those of the unread text. -/
def Aligned (c : Cursor) : Prop :=
  c.unread.glyphs = c.rest

theorem start_aligned (source : Text) : (start source).Aligned :=
  congrArg Text.glyphs source.spell_glyphs

theorem Aligned.suffix {c : Cursor} (aligned : c.Aligned) {gs : List Glyph} (behind : gs <:+ c.rest) : (spell gs).glyphs = gs := by
  rw [← aligned] at behind
  exact Text.glyphs_of_suffix behind

theorem Aligned.next {c : Cursor} (aligned : c.Aligned) : c.next.2.Aligned :=
  aligned.suffix c.next_suffix

theorem Aligned.cuts {c : Cursor} (aligned : c.Aligned) :
    ∃ blanks taken, c.unread = blanks ++ (taken ++ c.next.2.unread) ∧ Longest Blank c.unread blanks ∧
      Cut (taken ++ c.next.2.unread) c.next.1.kind c.next.1.lexeme taken := by
  have forms : ∀ g ∈ c.rest, g.Form := aligned ▸ Text.glyphs_form c.unread
  have suffix := skipBlanks_suffix false c.rest c.line
  obtain ⟨blanks, same, longest⟩ := Text.afterBlanks_longest false c.unread
  rw [show c.unread = spell c.rest from rfl, ← spell_skipBlanks false forms c.line] at same
  unfold Cursor.next
  split
  next line ended =>
    rw [ended] at same
    exact ⟨blanks, [], same, longest, .ended⟩
  next g rest line more =>
    rw [more] at same suffix
    obtain ⟨taken, behind, cut⟩ := scan_takes (aligned.suffix suffix) line
    refine ⟨blanks, taken, ?_, longest, ?_⟩
    · rw [← behind]
      exact same
    · rw [← behind]
      exact cut

theorem Aligned.unread_at_end {c : Cursor} (aligned : c.Aligned) (ended : c.next.1.kind = .eof) : c.next.2.unread = [] := by
  obtain ⟨_, taken, _, _, cut⟩ := aligned.cuts
  exact (List.append_eq_nil_iff.mp (cut.kind_eof_iff.mp ended)).2

theorem Aligned.stays_ended {c : Cursor} (aligned : c.Aligned) (ended : c.next.1.kind = .eof) : c.next.2.next.1.kind = .eof := by
  obtain ⟨blanks, taken, same, _, cut⟩ := aligned.next.cuts
  rw [aligned.unread_at_end ended] at same
  exact cut.kind_eof_iff.mpr (List.append_eq_nil_iff.mp same.symm).2

/-- The position behind so many tokens. -/
def after (c : Cursor) : Nat → Cursor
  | 0 => c
  | n + 1 => (c.after n).next.2

theorem after_next (c : Cursor) (n : Nat) : c.next.2.after n = c.after (n + 1) := by
  induction n with
  | zero => rfl
  | succ n ih => exact congrArg (fun d => d.next.2) ih

theorem Aligned.after {c : Cursor} (aligned : c.Aligned) (n : Nat) : (c.after n).Aligned := by
  induction n with
  | zero => exact aligned
  | succ n ih => exact ih.next

theorem Aligned.ended_after {c : Cursor} (aligned : c.Aligned) {m n : Nat} (later : m ≤ n)
    (ended : (c.after m).next.1.kind = .eof) : (c.after n).next.1.kind = .eof := by
  induction later with
  | refl => exact ended
  | step _ ih => exact (aligned.after _).stays_ended ih

/-- What so many calls for a token return. -/
def calls (c : Cursor) (count : Nat) : List Token :=
  (List.range count).map fun n => (c.after n).next.1

end Cursor

namespace Token

theorem readInto_eq (read : Array Token) (c : Cursor) :
    readInto read c =
      if c.next.1.kind = .eof then read.push c.next.1 else readInto (read.push c.next.1) c.next.2 := by
  rw [readInto]

/-- Reading all tokens is calling for the next one up to the first end token. -/
theorem readInto_calls (read : Array Token) (c : Cursor) :
    ∃ last, (c.after last).next.1.kind = .eof ∧ (∀ n < last, (c.after n).next.1.kind ≠ .eof) ∧
      (readInto read c).toList = read.toList ++ (List.range (last + 1)).map fun n => (c.after n).next.1 := by
  induction size : c.rest.length using Nat.strongRecOn generalizing read c with
  | _ rest ih =>
    rw [readInto_eq]
    by_cases ended : c.next.1.kind = .eof
    · refine ⟨0, ended, by simp, ?_⟩
      rw [if_pos ended]
      simp [Cursor.after]
    · have shorter := c.length_next ended
      obtain ⟨last, final, others, reads⟩ := ih _ (size ▸ shorter) (read.push c.next.1) c.next.2 rfl
      simp only [Cursor.after_next] at final others reads
      refine ⟨last + 1, final, ?_, ?_⟩
      · intro n earlier
        cases n with
        | zero => exact ended
        | succ n => exact others n (Nat.lt_of_succ_lt_succ earlier)
      · rw [if_neg ended, reads, List.range_succ_eq_map (n := last + 1)]
        simp [Cursor.after]

theorem all_calls (source : Text) :
    let c := Cursor.start source
    ∃ last, (c.after last).next.1.kind = .eof ∧ (∀ n < last, (c.after n).next.1.kind ≠ .eof) ∧
      Token.all source = c.calls (last + 1) :=
  readInto_calls #[] (Cursor.start source)

end Token

/-- Each call skips the longest run of blanks and cuts off the longest token behind it. It gives an error token exactly
where no token begins, and a reserved word exactly for the listed texts. It takes something unless it is at the end, and
there it stays. -/
theorem tokens_by_maximal_munch (source : Text) :
    let unread (n : Nat) : Text := ((Cursor.start source).after n).unread
    let call (n : Nat) : Token := ((Cursor.start source).after n).next.1
    unread 0 = source ∧
    (∀ n, ∃ blanks taken, unread n = blanks ++ (taken ++ unread (n + 1)) ∧ Longest Blank (unread n) blanks ∧
      Cut (taken ++ unread (n + 1)) (call n).kind (call n).lexeme taken ∧
      ((call n).kind = .error ↔ taken ++ unread (n + 1) ≠ [] ∧ Unreadable (taken ++ unread (n + 1))) ∧
      ((call n).kind.isReserved = true ↔ ∃ w ∈ TokenKind.words, utf8 w.2 = (call n).lexeme) ∧
      ((call n).kind ≠ .eof → taken ≠ [])) ∧
    ∃ last, (∀ n, (call n).kind = .eof ↔ last ≤ n) ∧ Token.all source = (List.range (last + 1)).map call := by
  intro unread call
  have aligned := Cursor.start_aligned source
  refine ⟨source.spell_glyphs, ?_, ?_⟩
  · intro n
    obtain ⟨blanks, taken, same, longest, cut⟩ := (aligned.after n).cuts
    exact ⟨blanks, taken, same, longest, cut, cut.kind_error_iff, cut.isReserved_iff, cut.taken_ne_nil⟩
  · obtain ⟨last, ended, others, reads⟩ := Token.readInto_calls #[] (Cursor.start source)
    refine ⟨last, ?_, reads⟩
    intro n
    constructor
    · intro here
      exact Nat.le_of_not_lt fun earlier => others n earlier here
    · intro later
      exact aligned.ended_after later ended

end ExprLang
