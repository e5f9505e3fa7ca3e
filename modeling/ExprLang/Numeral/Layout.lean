import ExprLang.Text.Basic
import ExprLang.Numeral.Shortest

/-! How doubles are written: the shortest digits that read back, positional from 0.0001 up to
999999, with an exponent beyond. -/

namespace ExprLang

namespace Decimal

/-- Digits, a point after the first one, and the exponent with its sign and at least two digits. -/
def scientific (digits : Text) (power : Int) : Text :=
  let body := match digits with
    | d :: e :: more => [d] ++ utf8 "." ++ e :: more
    | few => few
  let sign := if power < 0 then utf8 "e-" else utf8 "e+"
  body ++ sign ++ (Text.ofNat power.natAbs).padLeft 2 0x30

/-- Digits with the point so placed that the first one counts units of ten to the power. -/
def positional (digits : Text) (power : Int) : Text :=
  if power < 0 then utf8 "0." ++ List.replicate (power.natAbs - 1) 0x30 ++ digits
  else
    let whole := power.toNat + 1
    if digits.length ≤ whole then digits.padRight whole 0x30
    else digits.take whole ++ utf8 "." ++ digits.drop whole

def text (d : Decimal) : Text :=
  let digits := Text.ofNat d.digits
  let power := d.exponent + digits.length - 1
  if power < -4 || 6 ≤ power then scientific digits power else positional digits power

end Decimal

namespace Binary64

def text (word : UInt64) : Text :=
  let sign := if isNegative word then utf8 "-" else []
  if isNaN word then utf8 "NaN"
  else if isInfinite word then (if isNegative word then utf8 "-Inf" else utf8 "+Inf")
  else if significand word = 0 then sign ++ utf8 "0"
  else sign ++ (shortest word).text

end Binary64

end ExprLang
