import ExprLang.Text.Glyph
import ExprLang.Unicode.Space

/-! White space at the ends of a text. -/

namespace ExprLang.Text

/-- A text without the white space at its two ends. -/
def trim (t : Text) : Text :=
  let leading := t.glyphs.dropWhile fun g => Unicode.isSpace g.char
  let trailing := leading.reverse.dropWhile fun g => Unicode.isSpace g.char
  Glyph.spell trailing.reverse

end ExprLang.Text
