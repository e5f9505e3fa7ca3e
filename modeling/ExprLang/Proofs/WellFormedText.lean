import ExprLang.Text.Glyph

/-! Which texts are well-formed UTF-8: exactly the encodings of strings. A glyph that is no stray byte is a
character with its encoding, and the encoding of a character is read as that one glyph, whatever follows. -/

namespace ExprLang

namespace Glyph

/-- The glyph of a character. -/
def ofChar (c : Char) : Glyph :=
  ⟨c, String.utf8EncodeChar c⟩

theorem ofChar_isStray (c : Char) : (ofChar c).isStray = false := by
  apply Bool.eq_false_iff.mpr
  intro stray
  obtain ⟨same, short⟩ := Bool.and_eq_true_iff.mp stray
  have single : (String.utf8EncodeChar replacement).length = 1 := of_decide_eq_true same ▸ of_decide_eq_true short
  exact absurd single (by decide)

theorem announced_iff (lead : UInt8) :
    (announced lead = 1 ↔ lead.toNat < 0x80) ∧ (announced lead = 2 ↔ 0xC2 ≤ lead.toNat ∧ lead.toNat < 0xE0) ∧
    (announced lead = 3 ↔ 0xE0 ≤ lead.toNat ∧ lead.toNat < 0xF0) ∧
    (announced lead = 4 ↔ 0xF0 ≤ lead.toNat ∧ lead.toNat < 0xF5) := by
  simp only [announced, UInt8.lt_iff_toNat_lt, UInt8.reduceToNat]
  grind

theorem isContinuation_iff (b : UInt8) : isContinuation b = true ↔ 0x80 ≤ b.toNat ∧ b.toNat < 0xC0 := by
  simp only [isContinuation, UInt8.le_iff_toNat_le, UInt8.reduceToNat]
  grind

theorem allowsSecond_iff (lead second : UInt8) :
    allowsSecond lead second = true ↔
      (0x80 ≤ second.toNat ∧ second.toNat < 0xC0) ∧ (lead.toNat = 0xE0 → 0xA0 ≤ second.toNat) ∧
      (lead.toNat = 0xED → second.toNat < 0xA0) ∧ (lead.toNat = 0xF0 → 0x90 ≤ second.toNat) ∧
      (lead.toNat = 0xF4 → second.toNat < 0x90) := by
  simp only [allowsSecond, Bool.and_eq_true, isContinuation_iff, UInt8.le_iff_toNat_le, ← UInt8.toNat_inj, UInt8.reduceToNat]
  grind

theorem val_ofNat {n : Nat} (valid : n.isValidChar) : (Char.ofNat n).val.toNat = n := by
  rw [Char.ofNat, dif_pos valid]
  rfl

section Encodings
variable {lead b c d : UInt8}

theorem encode_one (leads : announced lead = 1) : String.utf8EncodeChar (Char.ofNat lead.toNat) = [lead] := by
  have low := (announced_iff lead).1.mp leads
  simp only [String.utf8EncodeChar, val_ofNat (n := lead.toNat) (by unfold Nat.isValidChar; omega)]
  rw [if_pos (by omega), UInt8.ofNat_toNat]

theorem encode_two (leads : announced lead = 2) (second : allowsSecond lead b = true) :
    String.utf8EncodeChar (Char.ofNat (extend (lead.toNat % 32) b)) = [lead, b] := by
  have bounds := (announced_iff lead).2.1.mp leads
  rw [allowsSecond_iff] at second
  have valid : (extend (lead.toNat % 32) b).isValidChar := by unfold extend Nat.isValidChar; omega
  simp only [String.utf8EncodeChar, val_ofNat valid]
  unfold extend
  rw [if_neg (by omega), if_pos (by omega)]
  simp only [List.cons.injEq, ← UInt8.toNat_inj, UInt8.toNat_ofNat', and_true]
  omega

theorem encode_three (leads : announced lead = 3) (second : allowsSecond lead b = true) (third : isContinuation c = true) :
    String.utf8EncodeChar (Char.ofNat (extend (extend (lead.toNat % 16) b) c)) = [lead, b, c] := by
  have bounds := (announced_iff lead).2.2.1.mp leads
  rw [allowsSecond_iff] at second
  rw [isContinuation_iff] at third
  -- No surrogate, and nothing that a shorter encoding has: this is what the second byte is bounded for.
  have valid : (extend (extend (lead.toNat % 16) b) c).isValidChar := by unfold extend Nat.isValidChar; omega
  simp only [String.utf8EncodeChar, val_ofNat valid]
  unfold extend
  rw [if_neg (by omega), if_neg (by omega), if_pos (by omega)]
  simp only [List.cons.injEq, ← UInt8.toNat_inj, UInt8.toNat_ofNat', and_true]
  omega

theorem encode_four (leads : announced lead = 4) (second : allowsSecond lead b = true) (third : isContinuation c = true)
    (fourth : isContinuation d = true) :
    String.utf8EncodeChar (Char.ofNat (extend (extend (extend (lead.toNat % 8) b) c) d)) = [lead, b, c, d] := by
  have bounds := (announced_iff lead).2.2.2.mp leads
  rw [allowsSecond_iff] at second
  rw [isContinuation_iff] at third fourth
  have valid : (extend (extend (extend (lead.toNat % 8) b) c) d).isValidChar := by
    unfold extend Nat.isValidChar
    omega
  simp only [String.utf8EncodeChar, val_ofNat valid]
  unfold extend
  rw [if_neg (by omega), if_neg (by omega), if_neg (by omega)]
  simp only [List.cons.injEq, ← UInt8.toNat_inj, UInt8.toNat_ofNat', and_true]
  omega

end Encodings

/-- The first glyph is a stray byte or a character that stands at the front of the text. -/
theorem first_cases (lead : UInt8) (rest : Text) :
    first lead rest = stray lead ∨
      ∃ c tail behind, first lead rest = ofChar c ∧ String.utf8EncodeChar c = lead :: tail ∧ rest = tail ++ behind := by
  have found {c : Char} {tail behind : Text} (encoded : String.utf8EncodeChar c = lead :: tail) (front : rest = tail ++ behind) :
      (⟨c, lead :: tail⟩ : Glyph) = stray lead ∨ ∃ d tail' behind', (⟨c, lead :: tail⟩ : Glyph) = ofChar d ∧
        String.utf8EncodeChar d = lead :: tail' ∧ rest = tail' ++ behind' :=
    .inr ⟨c, tail, behind, by rw [ofChar, encoded], encoded, front⟩
  unfold first
  split
  next leads => exact found (encode_one leads) rfl
  next b more leads =>
    split
    next second => exact found (encode_two leads second) rfl
    · exact .inl rfl
  next b c more leads =>
    split
    next valid =>
      obtain ⟨second, third⟩ := Bool.and_eq_true_iff.mp valid
      exact found (encode_three leads second third) rfl
    · exact .inl rfl
  next b c d more leads =>
    split
    next valid =>
      obtain ⟨front, fourth⟩ := Bool.and_eq_true_iff.mp valid
      obtain ⟨second, third⟩ := Bool.and_eq_true_iff.mp front
      exact found (encode_four leads second third fourth) rfl
    · exact .inl rfl
  · exact .inl rfl

section Decodings
variable {lead b c d : UInt8} (rest : Text)

theorem first_one (leads : announced lead = 1) : first lead rest = ⟨Char.ofNat lead.toNat, [lead]⟩ := by
  unfold first
  simp only [leads]

theorem first_two (leads : announced lead = 2) (second : allowsSecond lead b = true) :
    first lead (b :: rest) = ⟨Char.ofNat (extend (lead.toNat % 32) b), [lead, b]⟩ := by
  unfold first
  rw [leads]
  simp only [second, if_true]

theorem first_three (leads : announced lead = 3) (second : allowsSecond lead b = true) (third : isContinuation c = true) :
    first lead (b :: c :: rest) = ⟨Char.ofNat (extend (extend (lead.toNat % 16) b) c), [lead, b, c]⟩ := by
  unfold first
  rw [leads]
  simp only [second, third, Bool.and_true, if_true]

theorem first_four (leads : announced lead = 4) (second : allowsSecond lead b = true) (third : isContinuation c = true)
    (fourth : isContinuation d = true) :
    first lead (b :: c :: d :: rest) =
      ⟨Char.ofNat (extend (extend (extend (lead.toNat % 8) b) c) d), [lead, b, c, d]⟩ := by
  unfold first
  rw [leads]
  simp only [second, third, fourth, Bool.and_true, if_true]

end Decodings

/-- The encoding of a character is read as that character. -/
theorem first_encoded {c : Char} {lead : UInt8} {tail : Text} (encoded : String.utf8EncodeChar c = lead :: tail) (rest : Text) :
    first lead (tail ++ rest) = ofChar c := by
  have valid : c.val.toNat.isValidChar := c.valid
  have same {n : Nat} (number : n = c.val.toNat) : Char.ofNat n = c := number ▸ c.ofNat_toNat
  unfold Nat.isValidChar at valid
  rw [ofChar, encoded]
  unfold String.utf8EncodeChar at encoded
  simp only at encoded
  -- One case for each length. The digits of the bytes have to make up the number of the character again.
  split at encoded
  next one =>
    obtain ⟨rfl, rfl⟩ := List.cons.inj encoded
    rw [List.nil_append, first_one, same]
    · simp only [UInt8.toNat_ofNat']; omega
    · rw [(announced_iff _).1, UInt8.toNat_ofNat']; omega
  next =>
    split at encoded
    next two =>
      obtain ⟨rfl, rfl⟩ := List.cons.inj encoded
      rw [List.singleton_append, first_two, same]
      · simp only [extend, UInt8.toNat_ofNat']; omega
      · rw [(announced_iff _).2.1, UInt8.toNat_ofNat']; omega
      · simp only [allowsSecond_iff, UInt8.toNat_ofNat']; omega
    next =>
      split at encoded
      next three =>
        obtain ⟨rfl, rfl⟩ := List.cons.inj encoded
        rw [List.cons_append, List.singleton_append, first_three, same]
        · simp only [extend, UInt8.toNat_ofNat']; omega
        · rw [(announced_iff _).2.2.1, UInt8.toNat_ofNat']; omega
        · simp only [allowsSecond_iff, UInt8.toNat_ofNat']; omega
        · simp only [isContinuation_iff, UInt8.toNat_ofNat']; omega
      next four =>
        obtain ⟨rfl, rfl⟩ := List.cons.inj encoded
        rw [List.cons_append, List.cons_append, List.singleton_append, first_four, same]
        · simp only [extend, UInt8.toNat_ofNat']; omega
        · rw [(announced_iff _).2.2.2, UInt8.toNat_ofNat']; omega
        · simp only [allowsSecond_iff, UInt8.toNat_ofNat']; omega
        · simp only [isContinuation_iff, UInt8.toNat_ofNat']; omega
        · simp only [isContinuation_iff, UInt8.toNat_ofNat']; omega

end Glyph

namespace Text

private theorem glyphsInto_append (read : Array Glyph) (skip : Nat) (t : Text) :
    (glyphsInto read skip t).toList = read.toList ++ (glyphsInto #[] skip t).toList := by
  induction t generalizing read skip with
  | nil => simp [glyphsInto]
  | cons b rest ih =>
    cases skip with
    | zero =>
      rw [glyphsInto, glyphsInto, ih, ih (#[].push _)]
      simp
    | succ skip => exact ih read skip

private theorem glyphsInto_skip (skip : Nat) (t : Text) : glyphsInto #[] skip t = glyphsInto #[] 0 (t.drop skip) := by
  induction t generalizing skip with
  | nil => simp [glyphsInto]
  | cons b rest ih =>
    cases skip with
    | zero => rfl
    | succ skip => exact ih skip

theorem glyphs_cons (lead : UInt8) (rest : Text) :
    glyphs (lead :: rest) = Glyph.first lead rest :: glyphs (rest.drop ((Glyph.first lead rest).bytes.length - 1)) := by
  rw [glyphs, glyphsInto, glyphsInto_append, glyphsInto_skip]
  rfl

theorem glyphs_encoded (c : Char) (rest : Text) : glyphs (String.utf8EncodeChar c ++ rest) = Glyph.ofChar c :: rest.glyphs := by
  obtain ⟨lead, tail, encoded⟩ := List.exists_cons_of_ne_nil (String.utf8EncodeChar_ne_nil (c := c))
  rw [encoded, List.cons_append, glyphs_cons, Glyph.first_encoded encoded]
  simp [Glyph.ofChar, encoded]

theorem isUtf8_of_chars (cs : List Char) : isUtf8 (cs.flatMap String.utf8EncodeChar) = true := by
  induction cs with
  | nil => rfl
  | cons c cs ih =>
    simp only [isUtf8, List.flatMap_cons, glyphs_encoded, List.all_cons, Glyph.ofChar_isStray] at ih ⊢
    simpa using ih

theorem chars_of_isUtf8 (t : Text) (proper : t.isUtf8 = true) : ∃ cs : List Char, cs.flatMap String.utf8EncodeChar = t := by
  -- The first glyph may be several bytes wide, so the rest is shorter but not the tail.
  induction size : t.length using Nat.strongRecOn generalizing t with
  | _ n ih =>
    cases t with
    | nil => exact ⟨[], rfl⟩
    | cons lead rest =>
      rw [isUtf8, glyphs_cons, List.all_cons, Bool.and_eq_true] at proper
      obtain ⟨whole, others⟩ := proper
      rcases Glyph.first_cases lead rest with same | ⟨c, tail, behind, same, encoded, rfl⟩
      · rw [same] at whole
        exact absurd whole (by simp [Glyph.isStray, Glyph.stray])
      · rw [same] at others
        simp only [Glyph.ofChar, encoded, List.length_cons, Nat.add_sub_cancel, List.drop_left] at others
        obtain ⟨cs, spelt⟩ := ih behind.length (by simp at size; omega) behind others rfl
        exact ⟨c :: cs, by simp [encoded, spelt]⟩

theorem utf8_eq (s : String) : utf8 s = s.toList.flatMap String.utf8EncodeChar := by
  rw [utf8, String.toUTF8_eq_toByteArray, ← String.utf8Encode_toList]
  exact List.toList_data_toByteArray

/-- A text is well-formed if it is the encoding of a string. -/
theorem isUtf8_iff (t : Text) : t.isUtf8 = true ↔ ∃ s : String, utf8 s = t := by
  constructor
  · intro proper
    obtain ⟨cs, rfl⟩ := chars_of_isUtf8 t proper
    exact ⟨String.ofList cs, by rw [utf8_eq, String.toList_ofList]⟩
  · rintro ⟨s, rfl⟩
    rw [utf8_eq]
    exact isUtf8_of_chars s.toList

theorem isUtf8_flatten {pieces : List Text} (proper : ∀ t ∈ pieces, t.isUtf8 = true) : isUtf8 pieces.flatten = true := by
  induction pieces with
  | nil => rfl
  | cons t pieces ih =>
    obtain ⟨first, encoded⟩ := (isUtf8_iff t).mp (proper t (by simp))
    obtain ⟨others, rest⟩ := (isUtf8_iff _).mp (ih fun u member => proper u (by simp [member]))
    refine (isUtf8_iff _).mpr ⟨first ++ others, ?_⟩
    rw [List.flatten_cons, ← encoded, ← rest, utf8_eq, utf8_eq, utf8_eq, String.toList_append, List.flatMap_append]

end Text

end ExprLang
