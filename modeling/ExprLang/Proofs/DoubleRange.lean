import ExprLang.Numeral.Binary64
import Mathlib.Tactic.GCongr
import Mathlib.Tactic.Linarith
import Mathlib.Tactic.Ring

/-! Which decimal numbers have a double. Rounding goes to the nearest double, so that a number has one as
long as it lies below the middle between the largest double and the next power of two. -/

namespace ExprLang.Binary64

/-- Half way from the largest double, `(2 ^ 54 - 2) * 2 ^ 970`, to the power of two above it. -/
def overflow : Nat :=
  (2 ^ 54 - 1) * 2 ^ 970

/-- A quotient rounds to less than an even number if it is more than a half below it. At exactly a half
it goes to the even number. -/
theorem roundDiv_lt_iff (num half : Nat) {den : Nat} (positive : 0 < den) :
    roundDiv num den < 2 * half ↔ 2 * num + den < 4 * half * den := by
  have parts := Nat.div_add_mod num den
  have small := Nat.mod_lt num positive
  unfold roundDiv
  generalize num / den = q at *
  generalize num % den = r at *
  subst num
  -- Everything is told by the quotient and the remainder; a tie goes up if the quotient is odd.
  have below {n : Nat} (fewer : q + n ≤ 2 * half) : 2 * (den * q) + 2 * n * den ≤ 4 * half * den := by
    calc 2 * (den * q) + 2 * n * den = 2 * (q + n) * den := by ring
      _ ≤ 2 * (2 * half) * den := by gcongr
      _ = 4 * half * den := by ring
  have above {n : Nat} (more : 2 * half ≤ q + n) : 4 * half * den ≤ 2 * (den * q) + 2 * n * den := by
    calc 4 * half * den = 2 * (2 * half) * den := by ring
      _ ≤ 2 * (q + n) * den := by gcongr
      _ = 2 * (den * q) + 2 * n * den := by ring
  simp only
  split
  next less =>
    rcases Nat.lt_or_ge q (2 * half) with inside | outside
    · have := below (n := 1) inside
      omega
    · have := above (n := 0) outside
      omega
  split
  next equal =>
    rcases Nat.lt_or_ge (q + 1) (2 * half) with inside | outside
    · have := below (n := 2) inside
      omega
    · have := above outside
      omega
  next more =>
    rcases Nat.lt_or_ge (q + 1) (2 * half) with inside | outside
    · have := below (n := 2) inside
      omega
    · have := above outside
      omega

section Scale
variable {num den : Nat}

private theorem scaleDown_eq (num den : Nat) (power : Int) :
    scaleDown num den power = if 0 ≤ power then (num, den * 2 ^ power.toNat) else (num * 2 ^ (-power).toNat, den) := by
  simp only [scaleDown, Nat.shiftLeft_eq]

private theorem guess_bounds (nonzero : num ≠ 0) (proper : den ≠ 0) :
    2 ^ 52 * (scaleDown num den ((num.log2 : Int) - den.log2 - 53)).2 ≤
        (scaleDown num den ((num.log2 : Int) - den.log2 - 53)).1 ∧
      (scaleDown num den ((num.log2 : Int) - den.log2 - 53)).1 <
        2 ^ 54 * (scaleDown num den ((num.log2 : Int) - den.log2 - 53)).2 := by
  have numLow := Nat.log2_self_le nonzero
  have numHigh : num < 2 ^ (num.log2 + 1) := Nat.lt_log2_self
  have denLow := Nat.log2_self_le proper
  have denHigh : den < 2 ^ (den.log2 + 1) := Nat.lt_log2_self
  generalize num.log2 = a at *
  generalize den.log2 = b at *
  simp only [scaleDown_eq]
  split
  next wide =>
    obtain ⟨k, rfl⟩ : ∃ k, a = b + 53 + k := ⟨a - (b + 53), by omega⟩
    have power : ((b + 53 + k : Nat) - (b : Int) - 53).toNat = k := by omega
    simp only [power]
    constructor
    · calc 2 ^ 52 * (den * 2 ^ k) ≤ 2 ^ 52 * (2 ^ (b + 1) * 2 ^ k) := by gcongr
        _ = 2 ^ (b + 53 + k) := by ring
        _ ≤ num := numLow
    · calc num < 2 ^ (b + 53 + k + 1) := numHigh
        _ = 2 ^ 54 * (2 ^ b * 2 ^ k) := by ring
        _ ≤ 2 ^ 54 * (den * 2 ^ k) := by gcongr
  next narrow =>
    obtain ⟨k, same⟩ : ∃ k, b + 53 = a + k := ⟨b + 53 - a, by omega⟩
    have power : (-((a : Int) - b - 53)).toNat = k := by omega
    simp only [power]
    constructor
    · calc 2 ^ 52 * den ≤ 2 ^ 52 * 2 ^ (b + 1) := by gcongr
        _ = 2 ^ (a + k) := by rw [← same]; ring
        _ = 2 ^ a * 2 ^ k := by ring
        _ ≤ num * 2 ^ k := by gcongr
    · calc num * 2 ^ k < 2 ^ (a + 1) * 2 ^ k := by gcongr
        _ = 2 * 2 ^ (a + k) := by ring
        _ = 2 ^ 54 * 2 ^ b := by rw [← same]; ring
        _ ≤ 2 ^ 54 * den := by gcongr

private theorem scaleDown_pos (num : Nat) (proper : den ≠ 0) (power : Int) : 0 < (scaleDown num den power).2 := by
  simp only [scaleDown_eq]
  split
  · exact Nat.mul_pos (Nat.pos_of_ne_zero proper) (Nat.two_pow_pos _)
  · exact Nat.pos_of_ne_zero proper

private theorem scaleDown_of_neg {power : Int} (negative : power < 0) :
    scaleDown num den power = (num * 2 ^ (-power).toNat, den) := by
  rw [scaleDown_eq, if_neg (by omega)]

private theorem scaleDown_succ (num den : Nat) (power : Int) :
    (scaleDown num den power).1 * (scaleDown num den (power + 1)).2 =
      2 * (scaleDown num den (power + 1)).1 * (scaleDown num den power).2 := by
  simp only [scaleDown_eq]
  split
  next wide =>
    obtain ⟨k, rfl⟩ := Int.eq_ofNat_of_zero_le wide
    have next : ((k : Int) + 1).toNat = k + 1 := by omega
    rw [if_pos (by omega)]
    simp only [next, Int.toNat_natCast]
    ring
  next narrow =>
    obtain ⟨k, rfl⟩ : ∃ k : Nat, power = -(k + 1 : Nat) := ⟨(-power).toNat - 1, by omega⟩
    have here : (-(-((k + 1 : Nat) : Int))).toNat = k + 1 := by omega
    split
    next zero =>
      obtain rfl : k = 0 := by omega
      simp [Nat.mul_comm]
    next _ =>
      have next : (-(-((k + 1 : Nat) : Int) + 1)).toNat = k := by omega
      simp only [here, next]
      ring

private theorem half_bounds {n d n' d' : Nat} (halves : n * d' = 2 * n' * d) (positive : 0 < d) (positive' : 0 < d')
    (low : 2 ^ 53 * d ≤ n) (high : n < 2 ^ 54 * d) : 2 ^ 52 * d' ≤ n' ∧ n' < 2 ^ 53 * d' := by
  constructor
  · apply Nat.le_of_mul_le_mul_right (c := 2 * d) _ (by omega)
    calc 2 ^ 52 * d' * (2 * d) = 2 ^ 53 * d * d' := by ring
      _ ≤ n * d' := by gcongr
      _ = n' * (2 * d) := by rw [halves]; ring
  · apply Nat.lt_of_mul_lt_mul_right (a := 2 * d)
    calc n' * (2 * d) = n * d' := by rw [halves]; ring
      _ < 2 ^ 54 * d * d' := by gcongr
      _ = 2 ^ 53 * d' * (2 * d) := by ring

/-- Up to the least power, the rounding power is the one that leaves 53 bits. -/
private theorem roundingPower_eq (nonzero : num ≠ 0) (proper : den ≠ 0) :
    ∃ power, roundingPower num den = max power (-1074) ∧
      2 ^ 52 * (scaleDown num den power).2 ≤ (scaleDown num den power).1 ∧
      (scaleDown num den power).1 < 2 ^ 53 * (scaleDown num den power).2 := by
  obtain ⟨low, high⟩ := guess_bounds nonzero proper
  unfold roundingPower
  generalize (num.log2 : Int) - den.log2 - 53 = guess at *
  have positive := scaleDown_pos num proper guess
  simp only
  split
  next fits => exact ⟨guess, rfl, low, by rwa [Nat.div_lt_iff_lt_mul positive] at fits⟩
  next wide =>
    rw [Nat.div_lt_iff_lt_mul positive, Nat.not_lt] at wide
    exact ⟨guess + 1, rfl,
      half_bounds (scaleDown_succ num den guess) positive (scaleDown_pos num proper _) wide high⟩

private def assemble (power : Int) (m : Nat) : Nat :=
  if m < 2 ^ 52 then m else (power + 1074).toNat * 2 ^ 52 + m

private theorem ofRatio?_isSome (nonzero : num ≠ 0) :
    (ofRatio? num den).isSome ↔
      assemble (roundingPower num den) (roundDiv (scaleDown num den (roundingPower num den)).1
        (scaleDown num den (roundingPower num den)).2) < 2047 * 2 ^ 52 := by
  simp only [ofRatio?, if_neg nonzero, assemble, Option.isSome_ite, Nat.shiftLeft_eq, Nat.one_mul]

/-- The word is below that of infinity if the power is small enough, or if it is the greatest one and the
quotient does not round up to 54 bits. -/
private theorem assemble_lt_iff {power : Int} {m : Nat} (low : 2 ^ 52 ≤ m) (high : m < 2 ^ 53 + 2) :
    assemble power m < 2047 * 2 ^ 52 ↔ power < 971 ∨ power = 971 ∧ m < 2 ^ 53 := by
  unfold assemble
  rw [if_neg (by omega)]
  omega

private theorem pow_le_overflow {k : Nat} (small : k ≤ 970) : 2 ^ 53 * 2 ^ k ≤ overflow := by
  calc 2 ^ 53 * 2 ^ k ≤ (2 ^ 54 - 1) * 2 ^ 970 := by
        gcongr
        · decide
        · decide
    _ = overflow := by rw [overflow]

private theorem lt_overflow_of_lt {k : Nat} (small : k ≤ 970) (high : num < 2 ^ 53 * (den * 2 ^ k)) :
    num < overflow * den := by
  calc num < 2 ^ 53 * (den * 2 ^ k) := high
    _ = 2 ^ 53 * 2 ^ k * den := by ring
    _ ≤ overflow * den := Nat.mul_le_mul_right den (pow_le_overflow small)

private theorem lt_overflow_of_neg {power : Int} (negative : power < 0)
    (high : (scaleDown num den power).1 < 2 ^ 53 * (scaleDown num den power).2) : num < overflow * den := by
  rw [scaleDown_of_neg negative] at high
  apply lt_overflow_of_lt (k := 0) (by omega)
  calc num ≤ num * 2 ^ (-power).toNat := Nat.le_mul_of_pos_right num (Nat.two_pow_pos _)
    _ < 2 ^ 53 * (den * 2 ^ 0) := by simpa using high

/-- The same threshold, told by the quotient itself instead of its significant bits. -/
private theorem lt_overflow_iff {power : Int} (low : 2 ^ 52 * (scaleDown num den power).2 ≤ (scaleDown num den power).1)
    (high : (scaleDown num den power).1 < 2 ^ 53 * (scaleDown num den power).2) :
    num < overflow * den ↔
      power < 971 ∨ power = 971 ∧ 2 * (scaleDown num den power).1 + (scaleDown num den power).2 <
        2 ^ 54 * (scaleDown num den power).2 := by
  rcases lt_or_ge power 0 with negative | wide
  · simp only [lt_overflow_of_neg negative high, true_iff]
    exact Or.inl (by omega)
  obtain ⟨k, rfl⟩ := Int.eq_ofNat_of_zero_le wide
  simp only [scaleDown_eq, Int.natCast_nonneg, if_true, Int.toNat_natCast] at low high ⊢
  rcases Nat.lt_trichotomy k 971 with small | same | large
  · simp only [lt_overflow_of_lt (by omega) high, true_iff]
    exact Or.inl (by omega)
  · obtain ⟨j, rfl, top⟩ : ∃ j, k = j + 1 ∧ j = 970 := ⟨970, same, rfl⟩
    have threshold : overflow * den = (2 ^ 54 - 1) * (den * 2 ^ j) := by rw [overflow, top, Nat.mul_assoc, Nat.mul_comm den]
    have twice : den * 2 ^ (j + 1) = 2 * (den * 2 ^ j) := by ring
    rw [threshold, twice]
    generalize den * 2 ^ j = unit
    omega
  · obtain ⟨j, rfl⟩ : ∃ j, k = j + 2 := ⟨k - 2, by omega⟩
    have reached : 970 ≤ j := by omega
    have beyond : overflow * den ≤ num := by
      calc overflow * den = (2 ^ 54 - 1) * 2 ^ 970 * den := by rw [overflow]
        _ ≤ 2 ^ 54 * 2 ^ j * den := by gcongr <;> decide
        _ = 2 ^ 52 * (den * 2 ^ (j + 2)) := by ring
        _ ≤ num := low
    omega

/-- At the least power every quotient that does not reach 54 bits has a word. -/
private theorem least_fits (proper : den ≠ 0) {power : Int} (least : power < -1074)
    (high : (scaleDown num den power).1 < 2 ^ 53 * (scaleDown num den power).2) :
    assemble (-1074) (roundDiv (scaleDown num den (-1074)).1 (scaleDown num den (-1074)).2) < 2047 * 2 ^ 52 := by
  rw [scaleDown_of_neg (by omega)] at high ⊢
  have bound : num * 2 ^ (-(-1074 : Int)).toNat < 2 ^ 53 * den := by
    calc num * 2 ^ (-(-1074 : Int)).toNat ≤ num * 2 ^ (-power).toNat := by gcongr; decide; omega
      _ < 2 ^ 53 * den := high
  have rounded : roundDiv (num * 2 ^ (-(-1074 : Int)).toNat) den < 2 * (2 ^ 52 + 1) := by
    rw [roundDiv_lt_iff _ _ (Nat.pos_of_ne_zero proper)]
    omega
  simp only [assemble]
  split <;> omega

end Scale

/-- A positive quotient has a double exactly if it lies below the overflow threshold. -/
theorem ofRatio?_isSome_iff {num den : Nat} (proper : den ≠ 0) :
    (ofRatio? num den).isSome ↔ num < overflow * den := by
  by_cases zero : num = 0
  · have bound : num < overflow * den := by
      apply lt_overflow_of_lt (k := 0) (by omega)
      omega
    simp [ofRatio?, zero, zero ▸ bound]
  obtain ⟨power, same, low, high⟩ := roundingPower_eq zero proper
  rw [ofRatio?_isSome zero, same]
  rcases lt_or_ge power (-1074) with least | inside
  · rw [max_eq_right (by omega)]
    simp only [least_fits proper least high, lt_overflow_of_neg (by omega) high]
  · rw [max_eq_left inside]
    have positive := scaleDown_pos num proper power
    have few : ¬ roundDiv (scaleDown num den power).1 (scaleDown num den power).2 < 2 * 2 ^ 51 := by
      rw [roundDiv_lt_iff _ _ positive]
      omega
    have many : roundDiv (scaleDown num den power).1 (scaleDown num den power).2 < 2 * (2 ^ 52 + 1) := by
      rw [roundDiv_lt_iff _ _ positive]
      omega
    rw [assemble_lt_iff (by omega) (by omega), lt_overflow_iff low high]
    have edge := roundDiv_lt_iff (scaleDown num den power).1 (2 ^ 52) positive
    omega

end ExprLang.Binary64
