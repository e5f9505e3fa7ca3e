import ExprLang.Proofs.TokenClasses

/-! What is skipped before a token is the longest run of blanks and comments. Skipping looks for bytes below 0x80 only, so
it may go byte by byte, and inside of a comment it goes on to the line break. -/

namespace ExprLang

/-- The rest of a comment, and blanks behind it. -/
def Trailing (s : Text) : Prop :=
  ∃ body more, 0x0A ∉ body ∧ (∀ b ∈ more.head?, b = 0x0A) ∧ Blank more ∧ s = body ++ more

theorem Trailing.nil : Trailing [] :=
  ⟨[], [], List.not_mem_nil, by simp, .nil, rfl⟩

theorem trailing_cons_iff {b : UInt8} (inside : b ≠ 0x0A) (s : Text) : Trailing (b :: s) ↔ Trailing s := by
  constructor
  · rintro ⟨body, more, closed, breaks, blank, same⟩
    cases body with
    | nil =>
      obtain rfl : b :: s = more := same
      exact absurd (breaks b rfl) inside
    | cons c body =>
      obtain ⟨rfl, rfl⟩ := List.cons.inj same
      exact ⟨body, more, fun member => closed (List.mem_cons_of_mem _ member), breaks, blank, rfl⟩
  · rintro ⟨body, more, closed, breaks, blank, rfl⟩
    refine ⟨b :: body, more, ?_, breaks, blank, rfl⟩
    rintro (_ | ⟨_, member⟩)
    · exact inside rfl
    · exact closed member

theorem trailing_break_iff (s : Text) : Trailing (0x0A :: s) ↔ Blank (0x0A :: s) := by
  constructor
  · rintro ⟨body, more, closed, breaks, blank, same⟩
    cases body with
    | nil => rwa [same]
    | cons c body =>
      obtain ⟨rfl, _⟩ := List.cons.inj same
      exact absurd List.mem_cons_self closed
  · intro blank
    exact ⟨[], _, List.not_mem_nil, by simp, blank, rfl⟩

theorem blank_space_iff {b : UInt8} (space : b ∈ [0x20, 0x09, 0x0D, 0x0A]) (s : Text) : Blank (b :: s) ↔ Blank s := by
  constructor
  · intro blank
    cases blank with
    | space _ blank => exact blank
    | comment => simp at space
  · exact .space space

theorem blank_slash_iff (s : Text) : Blank (0x2F :: s) ↔ ∃ rest, s = 0x2F :: rest ∧ Trailing rest := by
  constructor
  · intro blank
    cases blank with
    | space space _ => simp at space
    | @comment body more closed breaks blank => exact ⟨_, rfl, body, more, closed, breaks, blank, rfl⟩
  · rintro ⟨_, rfl, body, more, closed, breaks, blank, rfl⟩
    exact .comment closed breaks blank

theorem not_blank_cons {b : UInt8} (space : b ∉ [0x20, 0x09, 0x0D, 0x0A]) (slash : b ≠ 0x2F) (s : Text) : ¬ Blank (b :: s) := by
  intro blank
  cases blank with
  | space inside _ => exact space inside
  | comment => exact slash rfl

namespace Longest
variable {P Q : Text → Prop} {t found : Text}

theorem nil (holds : P []) (none : ∀ b s, b :: s <+: t → ¬ P (b :: s)) : Longest P t [] := by
  refine ⟨List.nil_prefix, holds, ?_⟩
  intro s front other
  cases s with
  | nil => exact Nat.le_refl _
  | cons b s => exact absurd other (none b s front)

/-- One more byte in front, if it takes away nothing but itself. -/
theorem cons {b : UInt8} (same : ∀ s, Q (b :: s) ↔ P s) (longest : Longest P t found) : Longest Q (b :: t) (b :: found) := by
  refine ⟨(List.prefix_cons_inj b).mpr longest.front, (same found).mpr longest.holds, ?_⟩
  intro s front other
  cases s with
  | nil => exact Nat.zero_le _
  | cons c s =>
    obtain ⟨rfl, behind⟩ := List.cons_prefix_cons.mp front
    exact Nat.succ_le_succ (longest.longest s behind ((same s).mp other))

end Longest

namespace Text

/-- What is left behind blanks and comments, byte by byte. -/
def afterBlanks (inComment : Bool) : Text → Text
  | [] => []
  | b :: rest =>
    if b = 0x0A then afterBlanks false rest
    else if inComment || b = 0x20 || b = 0x0D || b = 0x09 then afterBlanks inComment rest
    else if b = 0x2F && rest.head? = some 0x2F then afterBlanks true rest
    else b :: rest

/-- What a run of blanks looks like from its start, and from inside of a comment. -/
def Skipped : Bool → Text → Prop
  | false => Blank
  | true => Trailing

theorem afterBlanks_longest (inComment : Bool) (t : Text) :
    ∃ blanks, t = blanks ++ afterBlanks inComment t ∧ Longest (Skipped inComment) t blanks := by
  -- Two slashes go together, so the induction is on the length.
  induction size : t.length using Nat.strongRecOn generalizing inComment t with
  | _ n ih =>
    cases t with
    | nil =>
      refine ⟨[], rfl, .nil ?_ (by simp)⟩
      cases inComment with
      | false => exact Blank.nil
      | true => exact Trailing.nil
    | cons b rest =>
      rw [List.length_cons] at size
      rw [afterBlanks]
      split
      next breaks =>
        obtain ⟨blanks, same, longest⟩ := ih rest.length (by omega) false rest rfl
        refine ⟨b :: blanks, congrArg (b :: ·) same, ?_⟩
        subst breaks
        have blank (s : Text) : Blank (0x0A :: s) ↔ Blank s := blank_space_iff (by decide) s
        cases inComment with
        | false => exact longest.cons blank
        | true => exact longest.cons fun s => (trailing_break_iff s).trans (blank s)
      next inside =>
        split
        next skips =>
          obtain ⟨blanks, same, longest⟩ := ih rest.length (by omega) inComment rest rfl
          refine ⟨b :: blanks, congrArg (b :: ·) same, ?_⟩
          cases inComment with
          | false =>
            refine longest.cons (blank_space_iff ?_)
            simpa [inside, or_assoc, or_comm] using skips
          | true => exact longest.cons (trailing_cons_iff inside)
        next stays =>
          simp only [Bool.or_eq_true, decide_eq_true_eq, not_or, Bool.not_eq_true] at stays
          obtain ⟨⟨⟨rfl, notSpace⟩, notReturn⟩, notTab⟩ := stays
          have space : b ∉ [0x20, 0x09, 0x0D, 0x0A] := by simp [notSpace, notReturn, notTab, inside]
          split
          next slashes =>
            obtain ⟨rfl, more, rfl⟩ : b = 0x2F ∧ ∃ more, rest = 0x2F :: more := by
              simpa [List.head?_eq_some_iff] using slashes
            obtain ⟨blanks, same, longest⟩ := ih more.length (by simp at size; omega) true more rfl
            refine ⟨0x2F :: 0x2F :: blanks, congrArg (0x2F :: 0x2F :: ·) same, ?_⟩
            have second : Longest (fun s => ∃ rest, s = 0x2F :: rest ∧ Trailing rest) (0x2F :: more) (0x2F :: blanks) :=
              longest.cons fun s => by simp [Skipped]
            exact second.cons blank_slash_iff
          next other =>
            refine ⟨[], rfl, .nil .nil ?_⟩
            intro c s front blank
            obtain ⟨rfl, behind⟩ := List.cons_prefix_cons.mp front
            by_cases slash : c = 0x2F
            · subst slash
              obtain ⟨_, rfl, _⟩ := (blank_slash_iff s).mp blank
              obtain ⟨more, rfl⟩ := behind
              simp at other
            · exact not_blank_cons space slash s blank

theorem afterBlanks_comment {body : Text} (inside : 0x0A ∉ body) (t : Text) :
    afterBlanks true (body ++ t) = afterBlanks true t := by
  induction body with
  | nil => rfl
  | cons b body ih =>
    rw [List.mem_cons, not_or] at inside
    rw [List.cons_append, afterBlanks, if_neg (Ne.symm inside.1), if_pos (by simp), ih inside.2]

end Text

namespace Cursor
open Glyph (spell)

theorem startsWith_iff {gs : List Glyph} (forms : ∀ g ∈ gs, g.Form) :
    startsWith '/' gs = true ↔ (spell gs).head? = some 0x2F := by
  cases gs with
  | nil => simp [startsWith]
  | cons g gs =>
    obtain ⟨b, tail, bytes⟩ := List.exists_cons_of_ne_nil (forms g (by simp)).ne_nil
    have slash : g.char = '/' ↔ b = 0x2F := (forms g (by simp)).char_eq_iff (by decide) (by simp [bytes])
    simp [startsWith, slash, bytes]

/-- Skipping glyphs is skipping bytes. -/
theorem spell_skipBlanks (inComment : Bool) {gs : List Glyph} (forms : ∀ g ∈ gs, g.Form) (line : Nat) :
    spell (skipBlanks inComment gs line).rest = Text.afterBlanks inComment (spell gs) := by
  induction gs generalizing inComment line with
  | nil => rfl
  | cons g gs ih =>
    obtain ⟨form, others⟩ := List.forall_mem_cons.mp forms
    rw [skipBlanks]
    split
    next breaks =>
      rw [ih false others, Glyph.spell_cons, form.bytes_eq (by decide) breaks]
      rfl
    next inside =>
      split
      next skips =>
        rw [ih inComment others, Glyph.spell_cons]
        cases inComment with
        | true =>
          rw [Text.afterBlanks_comment]
          intro member
          exact inside ((form.char_eq_iff (by decide) member).mpr rfl)
        | false =>
          simp only [Bool.false_or, Bool.or_eq_true, decide_eq_true_eq] at skips
          rcases skips with (space | back) | tab
          · rw [form.bytes_eq (by decide) space]; rfl
          · rw [form.bytes_eq (by decide) back]; rfl
          · rw [form.bytes_eq (by decide) tab]; rfl
      next stays =>
        simp only [Bool.or_eq_true, decide_eq_true_eq, not_or, Bool.not_eq_true] at stays
        obtain ⟨⟨⟨rfl, notSpace⟩, notReturn⟩, notTab⟩ := stays
        split
        next slashes =>
          obtain ⟨slash, second⟩ : g.char = '/' ∧ startsWith '/' gs = true := by simpa using slashes
          rw [ih true others, Glyph.spell_cons, form.bytes_eq (by decide) slash]
          show _ = Text.afterBlanks false (0x2F :: spell gs)
          simp [Text.afterBlanks, (startsWith_iff others).mp second]
        next other =>
          obtain ⟨b, tail, bytes⟩ := List.exists_cons_of_ne_nil form.ne_nil
          have here (c : Char) (low : c.toNat < 0x80) : g.char = c ↔ b = UInt8.ofNat c.toNat :=
            form.char_eq_iff low (by simp [bytes])
          rw [here _ (by decide)] at inside notSpace notReturn notTab
          rw [Bool.and_eq_true, decide_eq_true_eq, here _ (by decide), startsWith_iff others] at other
          have stops : ¬ (b = 0x2F ∧ (tail ++ spell gs).head? = some 0x2F) := by
            rintro ⟨slash, second⟩
            have whole := form.bytes_eq (by decide) ((here '/' (by decide)).mpr slash)
            obtain ⟨_, rfl⟩ := List.cons.inj (bytes.symm.trans whole)
            exact other ⟨slash, second⟩
          show spell (g :: gs) = _
          rw [Glyph.spell_cons, bytes, List.cons_append, Text.afterBlanks, if_neg (show b ≠ 0x0A from inside), if_neg,
            if_neg]
          · simpa using stops
          · simp only [Bool.false_or, Bool.or_eq_true, decide_eq_true_eq, not_or]
            exact ⟨⟨notSpace, notReturn⟩, notTab⟩

end Cursor

end ExprLang
