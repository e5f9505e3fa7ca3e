import ExprLang.Proofs.WellFormedText

/-! Where the glyphs of a text begin and end. Together they are the text, and what stands behind some of them is split as
it is inside the whole. A byte below 0x80 is always a glyph of its own, so a search for such a byte may go byte by byte. -/

namespace ExprLang

namespace Glyph

@[simp] theorem spell_nil : spell [] = [] := rfl

@[simp] theorem spell_cons (g : Glyph) (gs : List Glyph) : spell (g :: gs) = g.bytes ++ spell gs :=
  List.flatMap_cons

@[simp] theorem spell_append (gs hs : List Glyph) : spell (gs ++ hs) = spell gs ++ spell hs :=
  List.flatMap_append

/-- A glyph is one byte below 0x80, or it has no such byte and is no such character. -/
inductive Form (g : Glyph) : Prop
  | ascii {b : UInt8} : b.toNat < 0x80 → g.char.toNat = b.toNat → g.bytes = [b] → Form g
  | high : 0x80 ≤ g.char.toNat → g.bytes ≠ [] → (∀ b ∈ g.bytes, 0x80 ≤ b.toNat) → Form g

private theorem high_of_encoded {c : Char} {lead : UInt8} {tail : Text} (encoded : String.utf8EncodeChar c = lead :: tail)
    (high : 0x80 ≤ lead.toNat) : 0x80 ≤ c.toNat ∧ ∀ b ∈ String.utf8EncodeChar c, 0x80 ≤ b.toNat := by
  have valid : c.val.toNat.isValidChar := c.valid
  unfold Nat.isValidChar at valid
  show 0x80 ≤ c.val.toNat ∧ _
  unfold String.utf8EncodeChar at encoded ⊢
  simp only at encoded ⊢
  split at encoded
  next one =>
    obtain ⟨rfl, _⟩ := List.cons.inj encoded
    rw [UInt8.toNat_ofNat'] at high
    omega
  next more =>
    rw [if_neg more]
    refine ⟨by omega, ?_⟩
    -- One case for each length. Lead and continuation bytes all have their upper bit set.
    split
    · simp [UInt8.toNat_ofNat']
      omega
    · split
      · simp [UInt8.toNat_ofNat']
        omega
      · simp [UInt8.toNat_ofNat']
        omega

theorem first_form (lead : UInt8) (rest : Text) : (first lead rest).Form := by
  by_cases low : lead.toNat < 0x80
  · rw [first_one rest ((announced_iff lead).1.mpr low)]
    refine .ascii low ?_ rfl
    exact val_ofNat (by unfold Nat.isValidChar; omega)
  · rcases first_cases lead rest with same | ⟨c, tail, behind, same, encoded, rfl⟩
    · rw [same]
      refine .high ?_ ?_ ?_
      · show 0x80 ≤ replacement.toNat
        decide
      · exact List.cons_ne_nil lead []
      · intro b member
        obtain rfl := List.mem_singleton.mp member
        exact Nat.le_of_not_lt low
    · obtain ⟨char, bytes⟩ := high_of_encoded encoded (Nat.le_of_not_lt low)
      rw [same]
      exact .high char String.utf8EncodeChar_ne_nil bytes

theorem first_whole {lead : UInt8} {rest : Text} (whole : (first lead rest).char ≠ replacement) :
    first lead rest = ofChar (first lead rest).char := by
  rcases first_cases lead rest with same | ⟨c, _, _, same, _, _⟩
  · exact absurd (by rw [same]; rfl) whole
  · rw [same]
    rfl

namespace Form
variable {g : Glyph} (form : g.Form)
include form

theorem ne_nil : g.bytes ≠ [] := by
  cases form with
  | ascii _ _ bytes => simp [bytes]
  | high _ nonempty _ => exact nonempty

theorem mem_front {gs : List Glyph} {b : UInt8} {tail : Text} (front : spell (g :: gs) = b :: tail) : b ∈ g.bytes := by
  obtain ⟨lead, others, bytes⟩ := List.exists_cons_of_ne_nil form.ne_nil
  rw [spell_cons, bytes, List.cons_append] at front
  obtain ⟨rfl, _⟩ := List.cons.inj front
  simp [bytes]

/-- Every byte of a glyph tells whether the glyph is a given character below 0x80. -/
theorem char_eq_iff {c : Char} (low : c.toNat < 0x80) {b : UInt8} (member : b ∈ g.bytes) :
    g.char = c ↔ b = UInt8.ofNat c.toNat := by
  rw [← Char.toNat_inj, ← UInt8.toNat_inj, UInt8.toNat_ofNat']
  cases form with
  | ascii _ char bytes =>
    rw [bytes, List.mem_singleton] at member
    rw [char, member]
    omega
  | high char _ bytes =>
    have byte := bytes b member
    omega

theorem bytes_eq {c : Char} (low : c.toNat < 0x80) (same : g.char = c) : g.bytes = [UInt8.ofNat c.toNat] := by
  cases form with
  | @ascii b _ char bytes => rw [bytes, ← same, char, UInt8.ofNat_toNat]
  | high char _ _ =>
    rw [same] at char
    omega

end Form

/-- Taking and dropping bytes instead of glyphs, where all bytes of a glyph agree on whether they go. -/
theorem spell_while {gs : List Glyph} {q : Glyph → Bool} {p : UInt8 → Bool}
    (alike : ∀ g ∈ gs, g.Form ∧ ∀ b ∈ g.bytes, p b = q g) :
    spell (gs.takeWhile q) = (spell gs).takeWhile p ∧ spell (gs.dropWhile q) = (spell gs).dropWhile p := by
  induction gs with
  | nil => exact ⟨rfl, rfl⟩
  | cons g gs ih =>
    obtain ⟨⟨form, same⟩, others⟩ := List.forall_mem_cons.mp alike
    obtain ⟨takes, drops⟩ := ih others
    cases goes : q g with
    | true =>
      have all : ∀ b ∈ g.bytes, p b = true := fun b member => (same b member).trans goes
      rw [List.takeWhile_cons_of_pos goes, List.dropWhile_cons_of_pos goes, spell_cons, spell_cons,
        List.takeWhile_append_of_pos all, List.dropWhile_append_of_pos all, takes, drops]
      exact ⟨rfl, rfl⟩
    | false =>
      obtain ⟨b, tail, bytes⟩ := List.exists_cons_of_ne_nil form.ne_nil
      have stops : p b = false := (same b (by simp [bytes])).trans goes
      simp [goes, bytes, stops]

end Glyph

namespace Text
open Glyph (spell)

/-- Induction glyph by glyph. -/
theorem glyphInduction {motive : Text → Prop} (nil : motive [])
    (cons : ∀ lead tail rest, (Glyph.first lead (tail ++ rest)).bytes = lead :: tail →
      glyphs (lead :: tail ++ rest) = Glyph.first lead (tail ++ rest) :: glyphs rest →
      motive rest → motive (lead :: tail ++ rest))
    (t : Text) : motive t := by
  induction size : t.length using Nat.strongRecOn generalizing t with
  | _ n ih =>
    cases t with
    | nil => exact nil
    | cons lead rest =>
      obtain ⟨tail, behind, front, bytes⟩ :
          ∃ tail behind, rest = tail ++ behind ∧ (Glyph.first lead rest).bytes = lead :: tail := by
        rcases Glyph.first_cases lead rest with same | ⟨c, tail, behind, same, encoded, front⟩
        · exact ⟨[], rest, rfl, by rw [same]; rfl⟩
        · exact ⟨tail, behind, front, by rw [same, Glyph.ofChar, encoded]⟩
      subst front
      have split := glyphs_cons lead (tail ++ behind)
      rw [bytes, List.length_cons, Nat.add_sub_cancel, List.drop_left] at split
      refine cons lead tail behind bytes split (ih behind.length ?_ behind rfl)
      simp at size
      omega

theorem spell_glyphs (t : Text) : spell t.glyphs = t := by
  induction t using glyphInduction with
  | nil => rfl
  | cons lead tail rest bytes split ih => rw [split, Glyph.spell_cons, bytes, ih]

theorem mem_glyphs {t : Text} {g : Glyph} (member : g ∈ t.glyphs) : ∃ lead rest, g = Glyph.first lead rest := by
  induction t using glyphInduction with
  | nil => cases member
  | cons lead tail rest bytes split ih =>
    rw [split] at member
    rcases List.mem_cons.mp member with rfl | member
    · exact ⟨lead, _, rfl⟩
    · exact ih member

theorem bytes_of_ascii {t : Text} {g : Glyph} (member : g ∈ t.glyphs) (low : g.char.toNat < 0x80) :
    g.bytes = String.utf8EncodeChar g.char := by
  obtain ⟨lead, rest, rfl⟩ := mem_glyphs member
  rw [Glyph.first_whole]
  · rfl
  · intro broken
    rw [broken] at low
    exact absurd low (by decide)

theorem glyphs_form (t : Text) : ∀ g ∈ t.glyphs, g.Form := by
  intro g member
  obtain ⟨lead, rest, rfl⟩ := mem_glyphs member
  exact Glyph.first_form lead rest

/-- What stands behind some glyphs of a text splits as it does there. -/
theorem glyphs_of_suffix {t : Text} {gs : List Glyph} (behind : gs <:+ t.glyphs) : (spell gs).glyphs = gs := by
  obtain ⟨front, split⟩ := behind
  induction t using glyphInduction generalizing front with
  | nil =>
    obtain ⟨_, rfl⟩ := List.append_eq_nil_iff.mp split
    rfl
  | cons lead tail rest bytes here ih =>
    cases front with
    | nil => rw [show gs = glyphs (lead :: tail ++ rest) from split, spell_glyphs]
    | cons g front =>
      rw [here] at split
      exact ih front (List.cons.inj split).2

@[simp] theorem glyphs_nil : glyphs [] = [] := rfl

/-- Whole characters are split off from whatever follows them. -/
theorem glyphs_append {gs : List Glyph} (whole : ∀ g ∈ gs, g = .ofChar g.char) (rest : Text) :
    glyphs (spell gs ++ rest) = gs ++ rest.glyphs := by
  induction gs with
  | nil => rfl
  | cons g gs ih =>
    obtain ⟨first, others⟩ := List.forall_mem_cons.mp whole
    rw [Glyph.spell_cons, first, Glyph.ofChar, List.append_assoc, glyphs_encoded, ih others]
    rfl

end Text

end ExprLang
