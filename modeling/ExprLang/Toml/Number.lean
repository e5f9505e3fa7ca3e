import ExprLang.Numeral.Binary64
import ExprLang.Toml.Quoted

/-! Integers, floating-point numbers and points in time. -/

namespace ExprLang.Toml

/-- Underscores stand between digits, and the last character is a digit. Hexadecimal digits count. -/
def underscoresFit (cs : Chars) : Bool :=
  let rec spaced (afterDigit : Bool) : Chars → Bool
    | [] => afterDigit
    | c :: rest => (c ≠ '_' || afterDigit) && spaced (hexDigit? c).isSome rest
  spaced false cs

def isSign (c : Char) : Bool :=
  c = '+' || c = '-'

def unsigned (cs : Chars) : Chars :=
  match cs with
  | c :: rest => if isSign c then rest else cs
  | [] => []

/-- A decimal number does not start with a zero, unless that is all of it. -/
def hasLeadingZero (cs : Chars) : Bool :=
  match unsigned cs with
  | '0' :: _ :: _ => true
  | _ => false

def isSeparator (c : Char) : Bool :=
  c = '_'

/-- The number written with the given digits in a base. -/
def inBase (base : Nat) (cs : Chars) : Nat :=
  ((cs.filter fun c => !isSeparator c).filterMap hexDigit?).foldl (fun n d => base * n + d) 0

def fits (z : Int) : Option Int :=
  if Int64.minValue.toInt ≤ z && z ≤ Int64.maxValue.toInt then some z else none

/-- A decimal integer. -/
def decimal? (cs : Chars) : Option Int :=
  if underscoresFit cs && !hasLeadingZero cs then
    let n : Int := inBase 10 (unsigned cs)
    fits (if cs.head? = some '-' then -n else n)
  else none

/-- Digits without underscores, a point with digits behind it, and an exponent, in that order. The
point and the exponent may be missing. -/
structure FloatParts where
  whole : Chars
  fraction : Chars
  exponent : Int

def floatParts? (cs : Chars) : Option FloatParts := do
  let cs := unsigned (cs.filter fun c => !isSeparator c)
  let whole := cs.takeWhile Char.isDigit
  let rest := cs.dropWhile Char.isDigit
  let (fraction, rest) ← match rest with
    | '.' :: more =>
      let fraction := more.takeWhile Char.isDigit
      if fraction.isEmpty then none else some (fraction, more.dropWhile Char.isDigit)
    | _ => some ([], rest)
  let exponent ← match rest with
    | [] => some 0
    | e :: more =>
      let digits := unsigned more
      if (e = 'e' || e = 'E') && !digits.isEmpty && digits.all Char.isDigit then
        let n : Int := inBase 10 digits
        some (if more.head? = some '-' then -n else n)
      else none
  if whole.isEmpty then none else some ⟨whole, fraction, exponent⟩

/-- Whether a number is below the largest double. Exponents far out decide it by themselves. -/
def FloatParts.isFinite (p : FloatParts) : Bool :=
  let significand := inBase 10 (p.whole ++ p.fraction)
  let power := p.exponent - p.fraction.length
  let top := power + (p.whole.length + p.fraction.length : Nat)
  if significand = 0 || top < -400 then true
  else if 400 + p.whole.length + p.fraction.length < power then false
  else (Binary64.ofRatio? (significand * Nat.pow 10 power.toNat) (Nat.pow 10 (-power).toNat)).isSome

/-- The parts of a number between points and exponent letters. -/
def numberParts (cs : Chars) : List Chars :=
  cs.foldr (fun c parts =>
    match parts with
    | part :: more => if c = '.' || c = 'e' || c = 'E' then [] :: part :: more else (c :: part) :: more
    | [] => []) [[]]

/-- Whether a floating-point number is well formed and not too large. -/
def isFloat (cs : Chars) : Bool :=
  let parts := (numberParts cs).filter fun part => !part.isEmpty
  parts.all underscoresFit && !hasLeadingZero (parts.head?.getD []) &&
    match floatParts? cs with
    | none => false
    | some p => p.isFinite

def isFloatChar (c : Char) : Bool :=
  c.isDigit || isSeparator c || isSign c || c = '.' || c = 'e' || c = 'E'

/-- An integer in another base, behind its prefix. -/
def based? (base : Nat) (isDigit : Char → Bool) (cs : Chars) : Option (Value × Chars) :=
  let digits := cs.takeWhile fun c => isDigit c || isSeparator c
  if (cs.head?.map isDigit).getD false && underscoresFit digits then
    (fits (inBase base digits)).map fun n => (.integer n, cs.drop digits.length)
  else none

/-- A decimal integer or a floating-point number. -/
def decimalOrFloat? (cs : Chars) : Option (Value × Chars) :=
  let sign := cs.takeWhile isSign
  let body := cs.drop sign.length
  let digits := body.takeWhile fun c => c.isDigit || isSeparator c
  let rest := body.drop digits.length
  match rest.head? with
  | some '.' | some 'e' | some 'E' =>
    let number := sign ++ body.takeWhile isFloatChar
    if isFloat number then some (.float, cs.drop number.length) else none
  | _ => (decimal? (sign ++ digits)).map fun n => (.integer n, rest)

/-! ### Points in time -/

/-- The number in exactly `width` digits. -/
def digits? (width : Nat) (cs : Chars) : Option (Nat × Chars) :=
  let digits := cs.take width
  if digits.length = width && digits.all Char.isDigit then some (inBase 10 digits, cs.drop width)
  else none

def daysIn (year month : Nat) : Nat :=
  if month = 2 then (if year % 4 = 0 && (year % 100 ≠ 0 || year % 400 = 0) then 29 else 28)
  else if month = 4 || month = 6 || month = 9 || month = 11 then 30
  else 31

def char? (c : Char) (cs : Chars) : Option Chars :=
  match cs with
  | d :: rest => if d = c then some rest else none
  | [] => none

/-- Reads a date. -/
def date? (cs : Chars) : Option Chars := do
  let (year, cs) ← digits? 4 cs
  let (month, cs) ← digits? 2 (← char? '-' cs)
  let (day, cs) ← digits? 2 (← char? '-' cs)
  if 1 ≤ month && month ≤ 12 && 1 ≤ day && day ≤ daysIn year month then some cs else none

/-- Skips a fraction: a point and digits. -/
def dropFraction (cs : Chars) : Chars :=
  match cs with
  | '.' :: d :: more => if d.isDigit then more.dropWhile Char.isDigit else cs
  | _ => cs

/-- Reads the time of a day: hours and minutes, and perhaps seconds, of which there may be a
fraction. -/
def time? (cs : Chars) : Option Chars := do
  let (hour, cs) ← digits? 2 cs
  let (minute, cs) ← digits? 2 (← char? ':' cs)
  let (second, cs) ← match cs with
    | ':' :: more => (digits? 2 more).map fun (second, cs) => (second, dropFraction cs)
    | _ => some (0, cs)
  if hour < 24 && minute < 60 && second < 60 then some cs else none

/-- Reads the distance from universal time, if there is one. -/
def offset? (cs : Chars) : Option Chars :=
  match cs with
  | 'Z' :: rest => some rest
  | c :: rest =>
    if isSign c then do
      let (hour, cs) ← digits? 2 rest
      let (minute, cs) ← digits? 2 (← char? ':' cs)
      if hour ≤ 24 && minute ≤ 60 then some cs else none
    else some cs
  | [] => some []

def isMomentChar (c : Char) : Bool :=
  c.isDigit || isSign c || c = ':' || c = 'T' || c = 't' || c = ' ' || c = '.' || c = 'Z' || c = 'z'

/-- The separator of date and time may be a blank, and letters may be lower-case. -/
def momentChar (c : Char) : Char :=
  if c = 't' || c = ' ' then 'T' else if c = 'z' then 'Z' else c

/-- A date, a time, or both, the last with an optional offset. -/
def isMoment (cs : Chars) : Bool :=
  let cs := cs.map momentChar
  match date? cs with
  | some [] => true
  | some ('T' :: rest) => ((time? rest).bind offset?) = some []
  | some _ => false
  | none => time? cs = some []

/-- A point in time. Blanks behind it do not belong to it. -/
def moment? (cs : Chars) : Option (Value × Chars) :=
  let all := cs.takeWhile isMomentChar
  let moment := (all.reverse.dropWhile (· = ' ')).reverse
  if isMoment moment then some (.moment, cs.drop moment.length) else none

/-- A value that starts with a digit. -/
def numberOrMoment? (cs : Chars) : Option (Value × Chars) :=
  match cs with
  | '0' :: 'b' :: rest => based? 2 (fun c => c = '0' || c = '1') rest
  | '0' :: 'o' :: rest => based? 8 (fun c => '0' ≤ c && c ≤ '7') rest
  | '0' :: 'x' :: rest => based? 16 (fun c => (hexDigit? c).isSome) rest
  | _ =>
    match (cs.dropWhile Char.isDigit).head? with
    | some '-' | some ':' => moment? cs
    | _ => decimalOrFloat? cs

/-- A value that starts with a sign. -/
def signed? (cs : Chars) : Option (Value × Chars) :=
  match cs with
  | _ :: 'i' :: 'n' :: 'f' :: rest => some (.float, rest)
  | _ :: 'n' :: 'a' :: 'n' :: rest => some (.float, rest)
  | _ :: c :: _ => if c.isDigit then decimalOrFloat? cs else none
  | _ => none

end ExprLang.Toml
