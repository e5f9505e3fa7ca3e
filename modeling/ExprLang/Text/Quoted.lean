import ExprLang.Text.Glyph
import ExprLang.Unicode.Printable

/-! Quoted texts: a text between double quotes, with everything escaped that would not print as
itself. -/

namespace ExprLang.Text

/-- The letter after the backslash in the escape of a control character that has one. -/
def shortEscape? (n : Nat) : Option Char :=
  match n with
  | 0x07 => some 'a'
  | 0x08 => some 'b'
  | 0x0C => some 'f'
  | 0x0A => some 'n'
  | 0x0D => some 'r'
  | 0x09 => some 't'
  | 0x0B => some 'v'
  | _ => none

/-- One glyph inside quotes. A stray byte keeps its value; a character that does not print is given by
its number, with as many digits as its size needs. -/
def quoteGlyph (g : Glyph) : Text :=
  let n := g.char.toNat
  if g.isStray then utf8 "\\x" ++ hexBytes g.bytes
  else if g.char = '"' || g.char = '\\' then utf8 "\\" ++ g.bytes
  else if Unicode.isPrintable g.char then g.bytes
  else match shortEscape? n with
    | some c => utf8 "\\" ++ ofChar c
    | none =>
      if n < 0x80 then utf8 "\\x" ++ hex 2 n
      else if n < 0x10000 then utf8 "\\u" ++ hex 4 n
      else utf8 "\\U" ++ hex 8 n

def quoted (t : Text) : Text :=
  utf8 "\"" ++ t.glyphs.flatMap quoteGlyph ++ utf8 "\""

end ExprLang.Text
