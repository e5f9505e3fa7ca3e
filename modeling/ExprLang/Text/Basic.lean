/-! A text is a sequence of bytes. Programs, lexemes and messages are read and written byte for
byte, whether or not they are well-formed UTF-8. -/

namespace ExprLang

abbrev Text := List UInt8

/-- The UTF-8 encoding of a string. -/
def utf8 (s : String) : Text :=
  s.toUTF8.data.toList

namespace Text

def newline : UInt8 := 0x0A

/-- The decimal digit of a number below ten. -/
def digit (n : Nat) : UInt8 :=
  UInt8.ofNat (48 + n)

/-- Decimal digits, most significant first, without leading zeros. -/
def ofNat (n : Nat) : Text :=
  if n < 10 then [digit n] else ofNat (n / 10) ++ [digit (n % 10)]

def ofInt (z : Int) : Text :=
  if z < 0 then utf8 "-" ++ ofNat z.natAbs else ofNat z.natAbs

def isDigit (b : UInt8) : Bool :=
  0x30 ≤ b && b ≤ 0x39

/-- The number that a run of decimal digits denotes. -/
def toNat (t : Text) : Nat :=
  t.foldl (fun n b => 10 * n + (b.toNat - 48)) 0

def hexDigit (n : Nat) : UInt8 :=
  if n < 10 then UInt8.ofNat (48 + n) else UInt8.ofNat (87 + n)

/-- The low `width` hexadecimal digits of a number. -/
def hex : Nat → Nat → Text
  | 0, _ => []
  | width + 1, n => hex width (n / 16) ++ [hexDigit (n % 16)]

/-- Hexadecimal digits without leading zeros. -/
def hexOfNat (n : Nat) : Text :=
  if n < 16 then [hexDigit n] else hexOfNat (n / 16) ++ [hexDigit (n % 16)]

/-- Two hexadecimal digits for every byte. -/
def hexBytes (t : Text) : Text :=
  t.flatMap fun b => hex 2 b.toNat

/-- Letters `a` to `z` in upper case, every other byte as it is. -/
def upper (t : Text) : Text :=
  t.map fun b => if 0x61 ≤ b && b ≤ 0x7A then b - 0x20 else b

def padLeft (width : Nat) (fill : UInt8) (t : Text) : Text :=
  List.replicate (width - t.length) fill ++ t

def padRight (width : Nat) (fill : UInt8) (t : Text) : Text :=
  t ++ List.replicate (width - t.length) fill

/-- The texts in order, with a separator between neighbours. -/
def join (separator : Text) (ts : List Text) : Text :=
  separator.intercalate ts

theorem join_concat (separator : Text) {ts : List Text} (some : ts ≠ []) (last : Text) :
    join separator (ts ++ [last]) = join separator ts ++ separator ++ last := by
  induction ts with
  | nil => exact absurd rfl some
  | cons t ts ih =>
    cases ts with
    | nil => simp [join]
    | cons u ts =>
      have rest := ih (List.cons_ne_nil u ts)
      simp only [join, List.cons_append, List.intercalate_cons_cons, List.append_assoc] at rest ⊢
      rw [rest]

/-- Every text followed by a line break. -/
def lines (ts : List Text) : Text :=
  ts.flatMap fun t => t ++ [newline]

end Text

end ExprLang
