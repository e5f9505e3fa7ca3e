/-! Double-precision numbers as their 64-bit words: a sign bit, eleven exponent bits and 52 fraction
bits. Reading and printing go through exact natural-number arithmetic on the word. -/

namespace ExprLang.Binary64

/-- The fraction field of a word. -/
def fraction (word : UInt64) : Nat :=
  word.toNat % (1 <<< 52)

/-- The biased exponent field of a word. -/
def biased (word : UInt64) : Nat :=
  (word.toNat >>> 52) % (1 <<< 11)

def isNegative (word : UInt64) : Bool :=
  1 <<< 63 ≤ word.toNat

def isNaN (word : UInt64) : Bool :=
  biased word = 2047 && fraction word ≠ 0

def isInfinite (word : UInt64) : Bool :=
  biased word = 2047 && fraction word = 0

/-- The integer significand of a finite word, with the hidden bit of a normal number. -/
def significand (word : UInt64) : Nat :=
  if biased word = 0 then fraction word else (1 <<< 52) + fraction word

/-- A finite word denotes its significand times two to this power, up to sign. -/
def exponent (word : UInt64) : Int :=
  if biased word = 0 then -1074 else (biased word : Int) - 1075

/-- The integer nearest to a quotient, the even one of two equally near. -/
def roundDiv (num den : Nat) : Nat :=
  let q := num / den
  let r := num % den
  if 2 * r < den then q
  else if 2 * r = den then q + q % 2
  else q + 1

/-- The quotient `num / den` divided by two to a power, as a quotient again. -/
def scaleDown (num den : Nat) (power : Int) : Nat × Nat :=
  if 0 ≤ power then (num, den <<< power.toNat) else (num <<< (-power).toNat, den)

/-- The power of two in whose multiples a quotient is rounded: it leaves 53 significant bits, or fewer
below the smallest normal number. -/
def roundingPower (num den : Nat) : Int :=
  let guess : Int := (num.log2 : Int) - den.log2 - 53
  let (n, d) := scaleDown num den guess
  let power := if n / d < 1 <<< 53 then guess else guess + 1
  max power (-1074)

/-- The word nearest to `num / den`, ties to the even word; `none` if it lies beyond the largest
finite number. -/
def ofRatio? (num den : Nat) : Option UInt64 :=
  if num = 0 then some 0
  else
    let power := roundingPower num den
    let (n, d) := scaleDown num den power
    let m := roundDiv n d
    let word := if m < 1 <<< 52 then m else ((power + 1074).toNat <<< 52) + m
    if word < 2047 <<< 52 then some (UInt64.ofNat word) else none

end ExprLang.Binary64
