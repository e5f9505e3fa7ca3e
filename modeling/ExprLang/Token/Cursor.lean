import ExprLang.Token.Basic
import ExprLang.Unicode.Letter

/-! Reading tokens from the front of a program. Between tokens stand blanks, line breaks and
comments. Each token is the longest one that starts where it does. Whatever starts no token is
read as an error token, and scanning goes on behind it. -/

namespace ExprLang

/-- A position in a program: what is still unread, and the current line. -/
structure Cursor where
  rest : List Glyph
  line : Nat
  deriving DecidableEq, Repr

namespace Glyph

def isDigit (g : Glyph) : Bool :=
  '0' ≤ g.char && g.char ≤ '9'

def startsWord (g : Glyph) : Bool :=
  g.char = '_' || Unicode.isLetter g.char

def continuesWord (g : Glyph) : Bool :=
  g.startsWord || g.isDigit

end Glyph

namespace Cursor

def start (source : Text) : Cursor :=
  ⟨source.glyphs, 1⟩

def startsWith (c : Char) : List Glyph → Bool
  | [] => false
  | g :: _ => g.char = c

/-- Skips blanks, line breaks and comments. A comment begins with two slashes and ends before the
next line break. -/
def skipBlanks (inComment : Bool) : List Glyph → Nat → Cursor
  | [], line => ⟨[], line⟩
  | g :: rest, line =>
    if g.char = '\n' then skipBlanks false rest (line + 1)
    else if inComment || g.char = ' ' || g.char = '\r' || g.char = '\t' then
      skipBlanks inComment rest line
    else if g.char = '/' && startsWith '/' rest then skipBlanks true rest line
    else ⟨g :: rest, line⟩

/-- An identifier or a reserved word. -/
def word (g : Glyph) (rest : List Glyph) (line : Nat) : Token × Cursor :=
  let lexeme := Glyph.spell (g :: rest.takeWhile Glyph.continuesWord)
  (⟨(TokenKind.ofWord? lexeme).getD .identifier, lexeme, line⟩,
    ⟨rest.dropWhile Glyph.continuesWord, line⟩)

/-- An integer, or a double when a point and another digit follow. -/
def number (g : Glyph) (rest : List Glyph) (line : Nat) : Token × Cursor :=
  let whole := g :: rest.takeWhile Glyph.isDigit
  let integer := (⟨.integer, Glyph.spell whole, line⟩, ⟨rest.dropWhile Glyph.isDigit, line⟩)
  match rest.dropWhile Glyph.isDigit with
  | point :: d :: more =>
    if point.char = '.' && d.isDigit then
      let fraction := d :: more.takeWhile Glyph.isDigit
      (⟨.double, Glyph.spell (whole ++ point :: fraction), line⟩,
        ⟨more.dropWhile Glyph.isDigit, line⟩)
    else integer
  | _ => integer

/-- A string literal. It may span lines, and it belongs to the line of its closing quote. -/
def string (g : Glyph) (rest : List Glyph) (line : Nat) : Token × Cursor :=
  let body := rest.takeWhile fun h => h.char ≠ '"'
  let last := line + body.countP fun h => h.char = '\n'
  match rest.dropWhile fun h => h.char ≠ '"' with
  | [] => (⟨.error, utf8 "Unterminated string.", last⟩, ⟨[], last⟩)
  | close :: after => (⟨.string, Glyph.spell (g :: body ++ [close]), last⟩, ⟨after, last⟩)

/-- The kind of a single character that is a token by itself. -/
def symbol? (c : Char) : Option TokenKind :=
  match c with
  | '(' => some .leftParen
  | ')' => some .rightParen
  | '\x7b' => some .leftBrace
  | '\x7d' => some .rightBrace
  | ';' => some .semicolon
  | ',' => some .comma
  | '.' => some .dot
  | '-' => some .minus
  | '+' => some .plus
  | '/' => some .slash
  | '*' => some .star
  | '!' => some .bang
  | '=' => some .equal
  | '>' => some .greater
  | '<' => some .less
  | _ => none

/-- The kind of a character that is a token together with an equals sign behind it. -/
def symbolEqual? (c : Char) : Option TokenKind :=
  match c with
  | '!' => some .bangEqual
  | '=' => some .equalEqual
  | '>' => some .greaterEqual
  | '<' => some .lessEqual
  | _ => none

def symbol (g : Glyph) (rest : List Glyph) (line : Nat) : Token × Cursor :=
  match symbol? g.char, symbolEqual? g.char, rest with
  | none, _, _ =>
    (⟨.error, utf8 "Unexpected character '" ++ Text.ofChar g.char ++ utf8 "'.", line⟩, ⟨rest, line⟩)
  | some short, some long, h :: after =>
    if h.char = '=' then (⟨long, Glyph.spell [g, h], line⟩, ⟨after, line⟩)
    else (⟨short, g.bytes, line⟩, ⟨rest, line⟩)
  | some short, _, _ => (⟨short, g.bytes, line⟩, ⟨rest, line⟩)

/-- The token that starts with a given glyph. -/
def scan (g : Glyph) (rest : List Glyph) (line : Nat) : Token × Cursor :=
  if g.startsWord then word g rest line
  else if g.isDigit then number g rest line
  else if g.char = '"' then string g rest line
  else symbol g rest line

/-- The next token and the position behind it. At the end of the program it is the end token, on
every further call too. -/
def next (c : Cursor) : Token × Cursor :=
  match skipBlanks false c.rest c.line with
  | ⟨[], line⟩ => (⟨.eof, [], line⟩, ⟨[], line⟩)
  | ⟨g :: rest, line⟩ => scan g rest line

theorem length_skipBlanks (inComment : Bool) (gs : List Glyph) (line : Nat) :
    (skipBlanks inComment gs line).rest.length ≤ gs.length := by
  induction gs generalizing inComment line with
  | nil => simp [skipBlanks]
  | cons g rest ih =>
    rw [skipBlanks]
    split
    · exact Nat.le_succ_of_le (ih _ _)
    · split
      · exact Nat.le_succ_of_le (ih _ _)
      · split
        · exact Nat.le_succ_of_le (ih _ _)
        · simp

theorem length_scan (g : Glyph) (rest : List Glyph) (line : Nat) :
    (scan g rest line).2.rest.length ≤ rest.length := by
  have drops (p : Glyph → Bool) (gs : List Glyph) : (gs.dropWhile p).length ≤ gs.length :=
    (List.dropWhile_sublist p).length_le
  unfold scan
  split
  · exact drops _ _
  split
  · unfold number
    have kept := drops Glyph.isDigit rest
    split
    next point d more after =>
      rw [after] at kept
      split
      · exact Nat.le_trans (drops _ _) (by simp at kept ⊢; omega)
      · simpa [after] using kept
    · exact kept
  split
  · unfold string
    have kept := drops (fun h => h.char ≠ '"') rest
    simp only
    split
    · simp
    next close after same =>
      rw [same] at kept
      simp at kept ⊢
      omega
  · unfold symbol
    split
    · simp
    · split <;> simp
    · simp

/-- Every token but the end token takes something from the program. -/
theorem length_next (c : Cursor) (more : c.next.1.kind ≠ .eof) :
    c.next.2.rest.length < c.rest.length := by
  have skipped := length_skipBlanks false c.rest c.line
  revert more
  unfold next
  split
  · simp
  next g rest line same =>
    intro _
    rw [same] at skipped
    exact Nat.lt_of_le_of_lt (length_scan g rest line) skipped

end Cursor

namespace Token

/-- Appends the tokens from a position on, up to and with the end token. -/
def readInto (read : Array Token) (c : Cursor) : Array Token :=
  match _same : c.next with
  | (t, after) => if t.kind = .eof then read.push t else readInto (read.push t) after
termination_by c.rest.length
decreasing_by
  have shorter := Cursor.length_next c
  rw [_same] at shorter
  exact shorter (by assumption)

/-- All tokens of a program. Error tokens are among them, and the last one is the end token. -/
def all (source : Text) : List Token :=
  (readInto #[] (Cursor.start source)).toList

/-- The tokens up to the first error token and with it, or all of them if there is none. -/
def untilError (ts : List Token) : List Token :=
  ts.takeWhile (fun t => t.kind ≠ .error) ++ (ts.dropWhile fun t => t.kind ≠ .error).take 1

end Token

end ExprLang
