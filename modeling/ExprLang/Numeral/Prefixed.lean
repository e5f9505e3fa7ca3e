import ExprLang.Text.Basic

/-! Integers as people write them on a command line: signed, in decimal or with a prefix for another
base, and with underscores between digits. -/

namespace ExprLang.Prefixed

inductive ReadError where
  | malformed
  | outOfRange
  deriving DecidableEq, Repr

def underscore : UInt8 := 0x5F

def lower (b : UInt8) : UInt8 :=
  if 0x41 ≤ b && b ≤ 0x5A then b + 0x20 else b

/-- The value of a digit or a letter. -/
def digit? (b : UInt8) : Option Nat :=
  let b := lower b
  if 0x30 ≤ b && b ≤ 0x39 then some (b.toNat - 48)
  else if 0x61 ≤ b && b ≤ 0x7A then some (b.toNat - 87)
  else none

/-- The base of a number without its sign, and the digits behind the prefix. A leading zero without
a letter stands for base eight. -/
def base (t : Text) : Nat × Text :=
  match t with
  | 0x30 :: letter :: d :: more =>
    if lower letter = 0x62 then (2, d :: more)
    else if lower letter = 0x6F then (8, d :: more)
    else if lower letter = 0x78 then (16, d :: more)
    else (8, letter :: d :: more)
  | 0x30 :: more => (8, more)
  | _ => (10, t)

/-- Digits in a base as one number of at most 64 bits. Underscores are passed over. -/
def magnitude (base : Nat) (n : Nat) : Text → Except ReadError Nat
  | [] => .ok n
  | b :: rest =>
    if b = underscore then magnitude base n rest
    else
      match digit? b with
      | none => .error .malformed
      | some d =>
        if base ≤ d then .error .malformed
        else if UInt64.size ≤ base * n + d then .error .outOfRange
        else magnitude base (base * n + d) rest

/-- Every underscore has a digit on both sides. A prefix counts as a digit. -/
def underscoresFit (afterDigit : Bool) : Text → Bool
  | [] => true
  | b :: rest =>
    if b = underscore then
      afterDigit && rest.head?.isSome && rest.head? ≠ some underscore && underscoresFit false rest
    else underscoresFit true rest

/-- A signed integer of 64 bits. -/
def read (t : Text) : Except ReadError Int :=
  let isNegative := t.head? = some 0x2D
  let body := if isNegative || t.head? = some 0x2B then t.drop 1 else t
  if body.isEmpty then .error .malformed
  else
    let (b, digits) := base body
    match magnitude b 0 digits with
    | .error e => .error e
    | .ok n =>
      if !underscoresFit (digits.length < body.length) digits then .error .malformed
      else if isNegative then (if n ≤ 0x8000000000000000 then .ok (-n) else .error .outOfRange)
      else if n < 0x8000000000000000 then .ok n
      else .error .outOfRange

end ExprLang.Prefixed
