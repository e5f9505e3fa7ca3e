import ExprLang.Token.Cursor
import ExprLang.Proofs.GlyphBoundaries

/-! The lexical grammar: what stands between tokens, which texts are tokens of which kinds, and what is cut off from the
front of a text. The first character of a token already tells of what sort it is. -/

namespace ExprLang

/-- The longest beginning of a text that has a property. -/
structure Longest (P : Text → Prop) (text found : Text) : Prop where
  front : found <+: text
  holds : P found
  longest : ∀ s, s <+: text → P s → s.length ≤ found.length

/-- Spaces, tabs, carriage returns, line breaks and comments. A comment begins with two slashes, and nothing but a line
break may follow it. -/
inductive Blank : Text → Prop
  | nil : Blank []
  | space {b : UInt8} {more : Text} : b ∈ [0x20, 0x09, 0x0D, 0x0A] → Blank more → Blank (b :: more)
  | comment {body more : Text} :
      0x0A ∉ body → (∀ b ∈ more.head?, b = 0x0A) → Blank more → Blank (0x2F :: 0x2F :: (body ++ more))

/-- The operators with their kinds, of one and of two characters. -/
def TokenKind.operators : List (TokenKind × String) := [
  (leftParen, "("), (rightParen, ")"), (leftBrace, "\x7b"), (rightBrace, "\x7d"), (comma, ","), (dot, "."), (minus, "-"),
  (plus, "+"), (semicolon, ";"), (slash, "/"), (star, "*"), (bang, "!"), (equal, "="), (greater, ">"), (less, "<"),
  (bangEqual, "!="), (equalEqual, "=="), (greaterEqual, ">="), (lessEqual, "<=")]

/-- A letter or an underscore, followed by letters, digits and underscores. -/
def IsWord (s : Text) : Prop :=
  ∃ g gs, s.glyphs = g :: gs ∧ (g.char = '_' ∨ Unicode.isLetter g.char = true) ∧
    ∀ h ∈ gs, h.char = '_' ∨ Unicode.isLetter h.char = true ∨ '0' ≤ h.char ∧ h.char ≤ '9'

/-- One or more digits. -/
def IsNumeral (s : Text) : Prop :=
  s ≠ [] ∧ ∀ b ∈ s, Text.isDigit b = true

/-- The texts of the tokens of a kind. -/
inductive Lexeme : TokenKind → Text → Prop
  | reserved {k : TokenKind} {w : String} : (k, w) ∈ TokenKind.words → Lexeme k (utf8 w)
  | identifier {s : Text} : IsWord s → (∀ w ∈ TokenKind.words, utf8 w.2 ≠ s) → Lexeme .identifier s
  | integer {s : Text} : IsNumeral s → Lexeme .integer s
  | double {whole fraction : Text} : IsNumeral whole → IsNumeral fraction → Lexeme .double (whole ++ 0x2E :: fraction)
  | string {body : Text} : 0x22 ∉ body → Lexeme .string (0x22 :: (body ++ [0x22]))
  | operator {k : TokenKind} {w : String} : (k, w) ∈ TokenKind.operators → Lexeme k (utf8 w)

/-- No beginning of the text is a token. -/
def Unreadable (text : Text) : Prop :=
  ∀ k s, s <+: text → ¬ Lexeme k s

/-- What is cut off from the front of a text, with the kind and the lexeme of the token that it becomes: the longest
token. Where there is none, a quote takes all of the text with it, and another character only itself. -/
inductive Cut : Text → TokenKind → Text → Text → Prop
  | ended : Cut [] .eof [] []
  | token {text : Text} {k : TokenKind} {s : Text} :
      Lexeme k s → Longest (fun u => ∃ k, Lexeme k u) text s → Cut text k s s
  | unterminated {rest : Text} :
      Unreadable (0x22 :: rest) → Cut (0x22 :: rest) .error (utf8 "Unterminated string.") (0x22 :: rest)
  | unexpected {text : Text} {g : Glyph} {gs : List Glyph} :
      text.glyphs = g :: gs → g.char ≠ '"' → Unreadable text →
      Cut text .error (utf8 "Unexpected character '" ++ Text.ofChar g.char ++ utf8 "'.") g.bytes

namespace Unicode

private theorem inRanges_of_lt {low high : Nat} {more : List (Nat × Nat)} {n : Nat} (below : n < low) :
    inRanges ((low, high) :: more) n = false := by
  simp [inRanges, Nat.not_le.mpr below]

theorem isLetter_of_lt {c : Char} (below : c.toNat < 0x41) : isLetter c = false :=
  inRanges_of_lt below

theorem not_isLetter_replacement : isLetter Glyph.replacement = false := by
  decide +kernel

end Unicode

namespace Glyph

theorem isDigit_iff (g : Glyph) : g.isDigit = true ↔ 0x30 ≤ g.char.toNat ∧ g.char.toNat ≤ 0x39 := by
  simp only [isDigit, Bool.and_eq_true, decide_eq_true_eq]
  rfl

/-- Every byte of a glyph tells whether the glyph is a digit. -/
theorem Form.isDigit_eq {g : Glyph} (form : g.Form) {b : UInt8} (member : b ∈ g.bytes) : Text.isDigit b = g.isDigit := by
  rw [Bool.eq_iff_iff, isDigit_iff]
  simp only [Text.isDigit, Bool.and_eq_true, decide_eq_true_eq, UInt8.le_iff_toNat_le, UInt8.reduceToNat]
  cases form with
  | ascii _ char bytes =>
    rw [bytes, List.mem_singleton] at member
    rw [char, member]
  | high char _ bytes =>
    have byte := bytes b member
    omega

theorem startsWord_iff (g : Glyph) : g.startsWord = true ↔ g.char = '_' ∨ Unicode.isLetter g.char = true := by
  simp [startsWord]

theorem continuesWord_iff (g : Glyph) :
    g.continuesWord = true ↔ g.char = '_' ∨ Unicode.isLetter g.char = true ∨ '0' ≤ g.char ∧ g.char ≤ '9' := by
  simp [continuesWord, startsWord, isDigit, or_assoc]

theorem not_continuesWord_of_replacement {g : Glyph} (broken : g.char = replacement) : g.continuesWord = false := by
  simp only [continuesWord, startsWord, isDigit, broken, Unicode.not_isLetter_replacement]
  decide

/-- The sorts of tokens by their first glyph. -/
inductive Opening where
  | word | number | string | symbol | none
  deriving DecidableEq

def opening (g : Glyph) : Opening :=
  if g.startsWord then .word
  else if g.isDigit then .number
  else if g.char = '"' then .string
  else if (Cursor.symbol? g.char).isSome then .symbol
  else .none

theorem opening_of_digit {g : Glyph} (digit : g.isDigit = true) : g.opening = .number := by
  have bounds := g.isDigit_iff.mp digit
  have letter : Unicode.isLetter g.char = false := Unicode.isLetter_of_lt (by omega)
  have underscore : g.char ≠ '_' := by
    intro same
    rw [same] at bounds
    exact absurd bounds.2 (by decide)
  have starts : g.startsWord = false := by simp [startsWord, letter, underscore]
  simp [opening, starts, digit]

theorem opening_of_quote {g : Glyph} (quote : g.char = '"') : g.opening = .string := by
  have letter : Unicode.isLetter '"' = false := by decide
  simp [opening, startsWord, isDigit, quote, letter]

end Glyph

namespace Cursor

theorem symbol?_eq_some {c : Char} {k : TokenKind} (found : symbol? c = some k) :
    c.toNat < 0x80 ∧ (Glyph.ofChar c).opening = .symbol ∧ (k, String.singleton c) ∈ TokenKind.operators := by
  unfold symbol? at found
  split at found
  case h_16 => cases found
  all_goals
    obtain rfl := Option.some.inj found
    decide

theorem symbolEqual?_eq_some {c : Char} {k : TokenKind} (found : symbolEqual? c = some k) :
    (∃ short, symbol? c = some short) ∧ (k, String.ofList [c, '=']) ∈ TokenKind.operators := by
  unfold symbolEqual? at found
  split at found
  case h_5 => cases found
  all_goals
    obtain rfl := Option.some.inj found
    exact ⟨⟨_, rfl⟩, by decide⟩

/-- The kind of an operator. -/
def symbolText? : Text → Option TokenKind
  | [b] => symbol? (Char.ofNat b.toNat)
  | [b, c] => if c = 0x3D then symbolEqual? (Char.ofNat b.toNat) else none
  | _ => none

theorem symbolText?_operators : ∀ e ∈ TokenKind.operators, symbolText? (utf8 e.2) = some e.1 := by
  decide

theorem symbolText?_opening {s : Text} {k : TokenKind} (found : symbolText? s = some k) :
    ∃ b tail short, s = b :: tail ∧ symbol? (Char.ofNat b.toNat) = some short := by
  unfold symbolText? at found
  split at found
  next b => exact ⟨b, [], k, rfl, found⟩
  next b c =>
    split at found
    · obtain ⟨⟨short, single⟩, _⟩ := symbolEqual?_eq_some found
      exact ⟨b, [c], short, rfl, single⟩
    · cases found
  · cases found

end Cursor

theorem isWord_iff (s : Text) :
    IsWord s ↔ ∃ g gs, s.glyphs = g :: gs ∧ g.startsWord = true ∧ ∀ h ∈ gs, h.continuesWord = true := by
  simp only [Glyph.startsWord_iff, Glyph.continuesWord_iff, IsWord]

theorem isWord_reserved : ∀ w ∈ TokenKind.words, IsWord (utf8 w.2) := by
  have spelt : ∀ w ∈ TokenKind.words,
      ((utf8 w.2).glyphs.head?.any Glyph.startsWord && (utf8 w.2).glyphs.all Glyph.continuesWord) = true := by
    decide +kernel
  intro w member
  rw [isWord_iff]
  have all := spelt w member
  cases split : (utf8 w.2).glyphs with
  | nil => simp [split] at all
  | cons g gs =>
    simp only [split, List.head?_cons, Option.any_some, List.all_cons, Bool.and_eq_true, List.all_eq_true] at all
    exact ⟨g, gs, rfl, all.1, all.2.2⟩

theorem Text.whole_of_continues {t : Text} {g : Glyph} (member : g ∈ t.glyphs) (continues : g.continuesWord = true) :
    g = .ofChar g.char := by
  obtain ⟨lead, tail, rfl⟩ := mem_glyphs member
  apply Glyph.first_whole
  intro broken
  simp [Glyph.not_continuesWord_of_replacement broken] at continues

namespace IsWord
variable {s : Text} (word : IsWord s)
include word

theorem continues : ∀ g ∈ s.glyphs, g.continuesWord = true := by
  obtain ⟨g, gs, split, first, others⟩ := word
  rw [split, List.forall_mem_cons]
  refine ⟨?_, ?_⟩
  · rw [Glyph.continuesWord_iff, ← or_assoc]
    exact .inl first
  · intro h member
    exact h.continuesWord_iff.mpr (others h member)

/-- A word is split off from whatever follows it. -/
theorem glyphs_append (rest : Text) : (s ++ rest).glyphs = s.glyphs ++ rest.glyphs := by
  have split := Text.glyphs_append (fun g member => Text.whole_of_continues member (word.continues g member)) rest
  rwa [Text.spell_glyphs] at split

theorem opening {text : Text} {g : Glyph} {gs : List Glyph} (split : text.glyphs = g :: gs) (front : s <+: text) :
    g.opening = .word := by
  obtain ⟨rest, rfl⟩ := front
  rw [word.glyphs_append] at split
  obtain ⟨h, hs, here, first, _⟩ := word
  rw [here] at split
  obtain ⟨rfl, _⟩ := List.cons.inj split
  simp [Glyph.opening, h.startsWord_iff.mpr first]

end IsWord

/-- What the first glyph of a text says about the tokens that the text may begin with. -/
def Glyph.Opening.Shape (k : TokenKind) (s : Text) : Opening → Prop
  | word => IsWord s
  | number => IsNumeral s ∨ ∃ whole fraction, IsNumeral whole ∧ IsNumeral fraction ∧ s = whole ++ 0x2E :: fraction
  | string => ∃ body, 0x22 ∉ body ∧ s = 0x22 :: (body ++ [0x22])
  | symbol => Cursor.symbolText? s = some k
  | none => False

section Shapes
variable {text : Text} {g : Glyph} {gs : List Glyph} (split : text.glyphs = g :: gs)
include split

theorem Text.front_form : g.Form :=
  text.glyphs_form g (by simp [split])

theorem Text.mem_front_glyph {b : UInt8} {tail : Text} (front : b :: tail <+: text) : b ∈ g.bytes := by
  obtain ⟨more, same⟩ := front
  have spelt := text.spell_glyphs
  rw [split, ← same] at spelt
  exact (front_form split).mem_front spelt

theorem IsNumeral.opening {s : Text} (numeral : IsNumeral s) (front : s <+: text) : g.opening = .number := by
  obtain ⟨nonempty, digits⟩ := numeral
  obtain ⟨b, tail, rfl⟩ := List.exists_cons_of_ne_nil nonempty
  have digit : g.isDigit = true := by
    rw [← (Text.front_form split).isDigit_eq (Text.mem_front_glyph split front)]
    exact digits b (by simp)
  exact Glyph.opening_of_digit digit

theorem quote_opening {tail : Text} (front : 0x22 :: tail <+: text) : g.opening = .string := by
  apply Glyph.opening_of_quote
  exact ((Text.front_form split).char_eq_iff (by decide) (Text.mem_front_glyph split front)).mpr rfl

theorem Text.front_char {b : UInt8} {tail : Text} (front : b :: tail <+: text) (low : (Char.ofNat b.toNat).toNat < 0x80) :
    g.char = Char.ofNat b.toNat := by
  have byte : (Char.ofNat b.toNat).toNat = b.toNat :=
    Glyph.val_ofNat (by have := b.toNat_lt; unfold Nat.isValidChar; omega)
  rw [(front_form split).char_eq_iff low (mem_front_glyph split front), byte, UInt8.ofNat_toNat]

theorem operator_opening {k : TokenKind} {s : Text} (found : Cursor.symbolText? s = some k) (front : s <+: text) :
    g.opening = .symbol := by
  obtain ⟨b, tail, short, rfl, single⟩ := Cursor.symbolText?_opening found
  obtain ⟨low, symbol, _⟩ := Cursor.symbol?_eq_some single
  rw [← Text.front_char split front low] at symbol
  exact symbol

theorem Lexeme.shape {k : TokenKind} {s : Text} (lexeme : Lexeme k s) (front : s <+: text) : g.opening.Shape k s := by
  cases lexeme with
  | reserved listed =>
    have word : IsWord _ := isWord_reserved _ listed
    rw [word.opening split front]
    exact word
  | identifier word _ =>
    rw [word.opening split front]
    exact word
  | integer numeral =>
    rw [numeral.opening split front]
    exact .inl numeral
  | @double whole fraction numeral numeral' =>
    rw [numeral.opening split ((List.prefix_append ..).trans front)]
    exact .inr ⟨whole, fraction, numeral, numeral', rfl⟩
  | @string body closed =>
    rw [quote_opening split front]
    exact ⟨body, closed, rfl⟩
  | operator listed =>
    have spelt := Cursor.symbolText?_operators _ listed
    rw [operator_opening split spelt front]
    exact spelt

end Shapes

namespace Lexeme
variable {k : TokenKind} {s : Text} (lexeme : Lexeme k s)
include lexeme

theorem ne_nil : s ≠ [] := by
  cases lexeme with
  | reserved listed =>
    rintro same
    obtain ⟨g, gs, split, _⟩ := isWord_reserved _ listed
    simp [same, Text.glyphs, Text.glyphsInto] at split
  | identifier word _ =>
    rintro rfl
    obtain ⟨g, gs, split, _⟩ := word
    cases split
  | integer numeral => exact numeral.1
  | double => simp
  | string => simp
  | operator listed =>
    obtain ⟨b, tail, _, same, _⟩ := Cursor.symbolText?_opening (Cursor.symbolText?_operators _ listed)
    simp [same]

theorem kind_ne : k ≠ .eof ∧ k ≠ .error := by
  have words : ∀ w ∈ TokenKind.words, w.1 ≠ .eof ∧ w.1 ≠ .error := by decide
  have operators : ∀ w ∈ TokenKind.operators, w.1 ≠ .eof ∧ w.1 ≠ .error := by decide
  cases lexeme with
  | reserved listed => exact words _ listed
  | operator listed => exact operators _ listed
  | _ => decide

/-- A token is a reserved word exactly if its text is listed. -/
theorem isReserved_iff : k.isReserved = true ↔ ∃ w ∈ TokenKind.words, utf8 w.2 = s := by
  have unlisted (other : ∀ g gs, s.glyphs = g :: gs → g.opening ≠ .word) : ¬ ∃ w ∈ TokenKind.words, utf8 w.2 = s := by
    rintro ⟨w, listed, rfl⟩
    obtain ⟨g, gs, split, _⟩ := isWord_reserved w listed
    exact other g gs split ((isWord_reserved w listed).opening split List.prefix_rfl)
  cases lexeme with
  | reserved listed =>
    refine iff_of_true ?_ ⟨_, listed, rfl⟩
    rw [TokenKind.isReserved, List.contains_iff_mem]
    exact List.mem_map_of_mem listed
  | identifier _ unlisted =>
    refine iff_of_false (by decide) ?_
    rintro ⟨w, listed, same⟩
    exact unlisted w listed same
  | integer numeral =>
    refine iff_of_false (by decide) (unlisted ?_)
    intro g gs split
    simp [numeral.opening split List.prefix_rfl]
  | double numeral _ =>
    refine iff_of_false (by decide) (unlisted ?_)
    intro g gs split
    simp [numeral.opening split (List.prefix_append ..)]
  | string _ =>
    refine iff_of_false (by decide) (unlisted ?_)
    intro g gs split
    simp [quote_opening split List.prefix_rfl]
  | operator listed =>
    have plain : ∀ w ∈ TokenKind.operators, ¬ w.1.isReserved = true := by decide
    refine iff_of_false (plain _ listed) (unlisted ?_)
    intro g gs split
    simp [operator_opening split (Cursor.symbolText?_operators _ listed) List.prefix_rfl]

end Lexeme

namespace Cut
variable {text : Text} {k : TokenKind} {lexeme taken : Text} (cut : Cut text k lexeme taken)
include cut

theorem kind_eof_iff : k = .eof ↔ text = [] := by
  cases cut with
  | ended => simp
  | token lexeme longest =>
    refine iff_of_false lexeme.kind_ne.1 ?_
    rintro rfl
    exact lexeme.ne_nil (List.prefix_nil.mp longest.front)
  | unterminated => simp
  | unexpected split _ _ =>
    refine iff_of_false (by decide) ?_
    rintro rfl
    cases split

theorem kind_error_iff : k = .error ↔ text ≠ [] ∧ Unreadable text := by
  cases cut with
  | ended => simp
  | token lexeme longest =>
    refine iff_of_false lexeme.kind_ne.2 ?_
    rintro ⟨_, unreadable⟩
    exact unreadable _ _ longest.front lexeme
  | unterminated unreadable => exact iff_of_true rfl ⟨List.cons_ne_nil _ _, unreadable⟩
  | unexpected split _ unreadable =>
    refine iff_of_true rfl ⟨?_, unreadable⟩
    rintro rfl
    cases split

theorem taken_ne_nil (more : k ≠ .eof) : taken ≠ [] := by
  cases cut with
  | ended => exact absurd rfl more
  | token lexeme _ => exact lexeme.ne_nil
  | unterminated => exact List.cons_ne_nil _ _
  | unexpected split _ _ => exact (Text.front_form split).ne_nil

theorem isReserved_iff : k.isReserved = true ↔ ∃ w ∈ TokenKind.words, utf8 w.2 = lexeme := by
  -- The messages begin with a capital letter, and no reserved word does.
  have small : ∀ w ∈ TokenKind.words, (utf8 w.2).head? ≠ some 0x55 ∧ utf8 w.2 ≠ [] := by decide
  cases cut with
  | ended =>
    refine iff_of_false (by decide) ?_
    rintro ⟨w, listed, same⟩
    exact (small w listed).2 same
  | token lexeme _ => exact lexeme.isReserved_iff
  | unterminated =>
    refine iff_of_false (by decide) ?_
    rintro ⟨w, listed, same⟩
    exact (small w listed).1 (by rw [same]; decide)
  | unexpected =>
    refine iff_of_false (by decide) ?_
    rintro ⟨w, listed, same⟩
    exact (small w listed).1 (by rw [same]; rfl)

end Cut

end ExprLang
