import ExprLang.Numeral.Binary64

/-! The shortest decimal that reads back as a given double. Every decimal strictly between the
midpoints to the two neighbours reads back, and so do the midpoints themselves when the
significand is even. Of the shortest such decimals the nearest to the number is taken. -/

namespace ExprLang

/-- The number `digits * 10 ^ exponent`. -/
structure Decimal where
  digits : Nat
  exponent : Int
  deriving DecidableEq, Repr

namespace Binary64

/-- A positive number `value / den` with the two ends of the interval that reads back as it. -/
structure Interval where
  low : Nat
  value : Nat
  high : Nat
  den : Nat
  closed : Bool

/-- The interval of a finite nonzero word, in quarters of its last place. Below a power of two the
neighbour is only half as far. -/
def interval (word : UInt64) : Interval :=
  let m := significand word
  let below := if fraction word = 0 && 1 < biased word then 1 else 2
  let power := exponent word - 2
  let up := 1 <<< power.toNat
  { low := (4 * m - below) * up
    value := 4 * m * up
    high := (4 * m + 2) * up
    den := 1 <<< (-power).toNat
    closed := m % 2 = 0 }

namespace Interval

/-- The same interval measured in units of ten to a power. -/
def inUnits (i : Interval) (power : Int) : Interval :=
  let up := Nat.pow 10 (-power).toNat
  { i with
    low := i.low * up, value := i.value * up, high := i.high * up,
    den := i.den * Nat.pow 10 power.toNat }

/-- The integer inside the interval nearest to its value. -/
def nearest? (i : Interval) : Option Nat :=
  let least := if i.closed then (i.low + i.den - 1) / i.den else i.low / i.den + 1
  let greatest := if i.closed then i.high / i.den else (i.high - 1) / i.den
  if least ≤ greatest then some (min (max (roundDiv i.value i.den) least) greatest) else none

/-- The first of the powers `top`, `top - 1`, … of ten that has a multiple inside the interval. -/
def search (i : Interval) (top : Int) : Nat → Decimal
  | 0 => ⟨0, top⟩
  | tries + 1 =>
    match (i.inUnits top).nearest? with
    | some n => ⟨n, top⟩
    | none => i.search (top - 1) tries

end Interval

/-- A power of ten above the number: `30103 / 100000` exceeds the logarithm of two to base ten by
less than one part in a million. -/
def topPower (word : UInt64) : Int :=
  ((significand word).log2 + exponent word + 1) * 30103 / 100000 + 1

/-- The shortest decimal of a finite nonzero word, up to sign. Seventeen digits always suffice. -/
def shortest (word : UInt64) : Decimal :=
  (interval word).search (topPower word) 22

end Binary64

end ExprLang
