import ExprLang.Text.Basic

/-! UTF-8 decoding that never fails. A text splits into glyphs: a glyph is one well-formed character
with its bytes, or one single byte that starts no well-formed character. The bytes of the glyphs,
in order, are the text. -/

namespace ExprLang

structure Glyph where
  char : Char
  bytes : Text
  deriving DecidableEq, Repr

namespace Glyph

/-- What a byte outside every well-formed character is read as. -/
def replacement : Char :=
  Char.ofNat 0xFFFD

def stray (b : UInt8) : Glyph :=
  ⟨replacement, [b]⟩

def isStray (g : Glyph) : Bool :=
  g.char = replacement && g.bytes.length = 1

/-- The number of bytes that a lead byte announces, 0 for a byte that can lead nothing. -/
def announced (lead : UInt8) : Nat :=
  if lead < 0x80 then 1
  else if lead < 0xC2 then 0
  else if lead < 0xE0 then 2
  else if lead < 0xF0 then 3
  else if lead < 0xF5 then 4
  else 0

def isContinuation (b : UInt8) : Bool :=
  0x80 ≤ b && b ≤ 0xBF

/-- The second byte is a continuation byte, and four lead bytes narrow it further: overlong forms,
surrogates and numbers beyond the last character are not well formed. -/
def allowsSecond (lead second : UInt8) : Bool :=
  isContinuation second &&
    (if lead = 0xE0 then 0xA0 ≤ second
     else if lead = 0xED then second ≤ 0x9F
     else if lead = 0xF0 then 0x90 ≤ second
     else if lead = 0xF4 then second ≤ 0x8F
     else true)

/-- The six payload bits of a continuation byte appended to a number. -/
def extend (n : Nat) (b : UInt8) : Nat :=
  64 * n + b.toNat % 64

/-- The first glyph of the text `lead :: rest`. -/
def first (lead : UInt8) (rest : Text) : Glyph :=
  match announced lead, rest with
  | 1, _ => ⟨Char.ofNat lead.toNat, [lead]⟩
  | 2, b :: _ =>
    if allowsSecond lead b then ⟨Char.ofNat (extend (lead.toNat % 32) b), [lead, b]⟩ else stray lead
  | 3, b :: c :: _ =>
    if allowsSecond lead b && isContinuation c then
      ⟨Char.ofNat (extend (extend (lead.toNat % 16) b) c), [lead, b, c]⟩
    else stray lead
  | 4, b :: c :: d :: _ =>
    if allowsSecond lead b && isContinuation c && isContinuation d then
      ⟨Char.ofNat (extend (extend (extend (lead.toNat % 8) b) c) d), [lead, b, c, d]⟩
    else stray lead
  | _, _ => stray lead

/-- The bytes of a sequence of glyphs. -/
def spell (gs : List Glyph) : Text :=
  gs.flatMap bytes

end Glyph

namespace Text

/-- Appends the glyphs of a text to those already read; the next `skip` bytes belong to the last one. -/
def glyphsInto (read : Array Glyph) (skip : Nat) : Text → Array Glyph
  | [] => read
  | b :: rest =>
    match skip with
    | n + 1 => glyphsInto read n rest
    | 0 =>
      let g := Glyph.first b rest
      glyphsInto (read.push g) (g.bytes.length - 1) rest

def glyphs (t : Text) : List Glyph :=
  (glyphsInto #[] 0 t).toList

def isUtf8 (t : Text) : Bool :=
  t.glyphs.all fun g => !g.isStray

/-- The bytes of one character. -/
def ofChar (c : Char) : Text :=
  utf8 (String.singleton c)

end Text

end ExprLang
