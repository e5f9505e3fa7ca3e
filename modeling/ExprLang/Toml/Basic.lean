import ExprLang.Text.Glyph

/-! TOML documents as written: a sequence of table headers and of assignments. -/

namespace ExprLang.Toml

/-- A dotted key: its parts from the outside in. -/
abbrev Key := List Text

/-- A value as written. Floating-point numbers and points in time are only known to be well formed. -/
inductive Value where
  | string (s : Text)
  | integer (n : Int)
  | float
  | bool (b : Bool)
  | moment
  | array (items : List Value)
  | table (entries : List (Key × Value))

def Value.isArray : Value → Bool
  | array _ => true
  | _ => false

inductive Statement where
  | header (key : Key)
  | arrayHeader (key : Key)
  | assign (key : Key) (value : Value)

def isBareChar (c : Char) : Bool :=
  c.isAlphanum || c = '_' || c = '-'

/-- A control character inside the quotes of a key. -/
def escapeControl (b : UInt8) : Text :=
  match b with
  | 0x08 => utf8 "\\b"
  | 0x09 => utf8 "\\t"
  | 0x0A => utf8 "\\n"
  | 0x0C => utf8 "\\f"
  | 0x0D => utf8 "\\r"
  | 0x22 => utf8 "\\\""
  | 0x5C => utf8 "\\\\"
  | _ => if b < 0x20 || b = 0x7F then utf8 "\\u" ++ Text.hex 4 b.toNat else [b]

/-- A key part as it is shown: bare where it can be, else in quotes. -/
def Key.partText (part : Text) : Text :=
  let bare := part.all fun b => isBareChar (Char.ofNat b.toNat)
  if bare && !part.isEmpty then part
  else utf8 "\"" ++ part.flatMap escapeControl ++ utf8 "\""

def Key.text (key : Key) : Text :=
  Text.join (utf8 ".") (key.map partText)

end ExprLang.Toml
