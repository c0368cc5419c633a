import Mathlib.Algebra.Order.Field.Basic
import Mathlib.Data.Int.Log
import Mathlib.Data.Rat.Floor
import Mathlib.Tactic.Linarith
import Mathlib.Tactic.NormNum
import PdfBody.Binary64.Nearest

/-! Rounding to integers and into binary64, against the exact ratio. A rounded number is within
half a unit of the ratio, which makes it the only integer that near, and neither the order nor the
rounded number depends on the terms in which the ratio is given. -/
namespace PdfBody.Binary64

theorem divideEvenNear (num : Nat) {den : Nat} (some : 0 < den) :
    2 * num ≤ 2 * (divideEven num den * den) + den ∧
      2 * (divideEven num den * den) ≤ 2 * num + den := by
  have parts := Nat.div_add_mod' num den
  have below := Nat.mod_lt num some
  unfold divideEven
  simp only
  split
  · omega
  split
  · rw [Nat.add_mul]
    omega
  · rcases Nat.mod_two_eq_zero_or_one (num / den) with even | odd
    · rw [even, Nat.add_zero]
      omega
    · rw [odd, Nat.add_mul]
      omega

theorem divideEvenError (num : Nat) {den : Nat} (some : 0 < den) :
    |(divideEven num den : ℚ) - num / den| ≤ 1 / 2 := by
  obtain ⟨low, high⟩ := divideEvenNear num some
  have positive : (0 : ℚ) < den := by exact_mod_cast some
  have low' : (2 * num : ℚ) ≤ 2 * (divideEven num den * den) + den := by exact_mod_cast low
  have high' : (2 * (divideEven num den * den) : ℚ) ≤ 2 * num + den := by exact_mod_cast high
  rw [abs_le]
  constructor
  · rw [neg_le_sub_iff_le_add, div_le_iff₀ positive]
    linarith
  · rw [sub_le_iff_le_add, ← sub_le_iff_le_add', le_div_iff₀ positive]
    linarith

theorem nearestUnique {m n : Nat} {ratio : ℚ} (rounded : |(m : ℚ) - ratio| ≤ 1 / 2)
    (near : |(n : ℚ) - ratio| < 1 / 2) : m = n := by
  have apart : |((m - n : ℤ) : ℚ)| < 1 := by
    rw [abs_lt] at near ⊢
    rw [abs_le] at rounded
    push_cast
    constructor
    · linarith [near.2, rounded.1]
    · linarith [near.1, rounded.2]
  have zero : (m - n : ℤ) = 0 := Int.abs_lt_one_iff.mp (by exact_mod_cast apart)
  omega

theorem divideEvenScaled (num den : Nat) {factor : Nat} (some : 0 < factor) :
    divideEven (num * factor) (den * factor) = divideEven num den := by
  have smaller : 2 * (num % den * factor) < den * factor ↔ 2 * (num % den) < den := by
    rw [← Nat.mul_assoc, Nat.mul_lt_mul_right some]
  have larger : den * factor < 2 * (num % den * factor) ↔ den < 2 * (num % den) := by
    rw [← Nat.mul_assoc, Nat.mul_lt_mul_right some]
  simp only [divideEven, Nat.mul_div_mul_right _ _ some, Nat.mul_mod_mul_right, smaller, larger]

theorem divideEvenRatio {num den num' den' : Nat} (some : 0 < den) (some' : 0 < den')
    (same : (num : ℚ) / den = num' / den') : divideEven num den = divideEven num' den' := by
  have crossed : num * den' = num' * den := by
    rw [div_eq_div_iff (by positivity) (by positivity)] at same
    exact_mod_cast same
  rw [← divideEvenScaled num den some', crossed, Nat.mul_comm den, divideEvenScaled num' den' some]

theorem shiftedRatio (num den : Nat) (shift : Int) :
    ((num <<< shift.toNat : Nat) : ℚ) / (den <<< (-shift).toNat : Nat) =
      num / den * 2 ^ shift := by
  rw [Nat.shiftLeft_eq, Nat.shiftLeft_eq]
  push_cast
  rcases Int.le_total 0 shift with up | down
  · obtain ⟨n, rfl⟩ := Int.eq_ofNat_of_zero_le up
    have flat : (-(n : Int)).toNat = 0 := by omega
    rw [flat, Int.toNat_natCast, pow_zero, mul_one, zpow_natCast, div_mul_eq_mul_div]
  · obtain ⟨n, rfl⟩ : ∃ n : Nat, shift = -(n : Int) := ⟨(-shift).toNat, by omega⟩
    have flat : (-(n : Int)).toNat = 0 := by omega
    rw [flat, neg_neg, Int.toNat_natCast, pow_zero, mul_one, zpow_neg, zpow_natCast,
      ← div_eq_mul_inv, div_div]

theorem unitSome (unit : Int) : (0 : ℚ) < 2 ^ unit := zpow_pos two_pos unit

theorem unitRatio (num den : Nat) (unit : Int) :
    ((num <<< (-unit).toNat : Nat) : ℚ) / (den <<< unit.toNat : Nat) = num / den / 2 ^ unit := by
  have shifted := shiftedRatio num den (-unit)
  rwa [neg_neg, zpow_neg, ← div_eq_mul_inv] at shifted

theorem shiftedSome {n : Nat} (some : 0 < n) (shift : Nat) : 0 < n <<< shift := by
  rw [Nat.shiftLeft_eq]
  positivity

theorem ratioBracket {num den : Nat} (some : 0 < num) (some' : 0 < den) :
    (2 : ℚ) ^ ((num.log2 : Int) - den.log2 - 1) < num / den ∧
      (num / den : ℚ) < 2 ^ ((num.log2 : Int) - den.log2 + 1) := by
  have positive : (0 : ℚ) < den := by exact_mod_cast some'
  have low : (2 : ℚ) ^ num.log2 ≤ num := by exact_mod_cast Nat.log2_self_le (by omega)
  have high : (num : ℚ) < 2 ^ (num.log2 + 1) := by exact_mod_cast Nat.lt_log2_self
  have low' : (2 : ℚ) ^ den.log2 ≤ den := by exact_mod_cast Nat.log2_self_le (by omega)
  have high' : (den : ℚ) < 2 ^ (den.log2 + 1) := by exact_mod_cast Nat.lt_log2_self
  constructor
  · calc (2 : ℚ) ^ ((num.log2 : Int) - den.log2 - 1)
        = 2 ^ num.log2 / 2 ^ (den.log2 + 1) := by
          rw [sub_sub, zpow_sub₀ two_ne_zero]
          norm_cast
      _ ≤ num / 2 ^ (den.log2 + 1) := by gcongr
      _ < num / den := by gcongr
  · calc (num / den : ℚ) < 2 ^ (num.log2 + 1) / den := by gcongr
      _ ≤ 2 ^ (num.log2 + 1) / 2 ^ den.log2 := by gcongr
      _ = 2 ^ ((num.log2 : Int) - den.log2 + 1) := by
          rw [sub_add_eq_add_sub, zpow_sub₀ two_ne_zero]
          norm_cast

theorem binaryOrderLog {num den : Nat} (some : 0 < num) (some' : 0 < den) :
    binaryOrder num den = Int.log 2 ((num : ℚ) / den) := by
  obtain ⟨low, high⟩ := ratioBracket some some'
  have positive : (0 : ℚ) < num / den := by positivity
  unfold binaryOrder
  generalize (num.log2 : Int) - den.log2 = guess at low high ⊢
  have below : num <<< (-guess).toNat < den <<< guess.toNat ↔ (num / den : ℚ) < 2 ^ guess := by
    have scale : (0 : ℚ) < (den <<< guess.toNat : Nat) := by
      exact_mod_cast shiftedSome some' guess.toNat
    rw [← div_lt_one (unitSome guess), ← unitRatio, div_lt_one scale, Nat.cast_lt]
  have order {k : Int} (down : (2 : ℚ) ^ k ≤ num / den) (up : (num / den : ℚ) < 2 ^ (k + 1)) :
      k = Int.log 2 ((num : ℚ) / den) := by
    have least := (Int.zpow_le_iff_le_log (b := 2) (by decide) positive).mp (by exact_mod_cast down)
    have most := (Int.lt_zpow_iff_log_lt (b := 2) (by decide) positive).mp (by exact_mod_cast up)
    omega
  simp only [below]
  split
  · next less => exact order low.le (by rwa [sub_add_cancel])
  · next more => exact order (not_lt.mp more) high

theorem nearestRatio {num den num' den' : Nat} (some : 0 < den) (some' : 0 < den')
    (same : (num : ℚ) / den = num' / den') :
    nearestMagnitude num den = nearestMagnitude num' den' := by
  have zero : num = 0 ↔ num' = 0 := by
    have ratio : (num : ℚ) / den = 0 ↔ (num' : ℚ) / den' = 0 := by rw [same]
    simpa [some.ne', some'.ne'] using ratio
  by_cases none : num = 0
  · simp only [nearestMagnitude, if_pos none, if_pos (zero.mp none)]
  · have none' : num' ≠ 0 := fun empty => none (zero.mpr empty)
    have order : binaryOrder num den = binaryOrder num' den' := by
      rw [binaryOrderLog (by omega) some, binaryOrderLog (by omega) some', same]
    have rounded (unit : Int) : divideEven (num <<< (-unit).toNat) (den <<< unit.toNat) =
        divideEven (num' <<< (-unit).toNat) (den' <<< unit.toNat) := by
      refine divideEvenRatio (shiftedSome some _) (shiftedSome some' _) ?_
      rw [unitRatio, unitRatio, same]
    simp only [nearestMagnitude, if_neg none, if_neg none', order, rounded]

def magnitude (x : Binary64) : ℚ := x.mantissa * 2 ^ x.scale

def IsFinite (x : Binary64) : Prop := x.isNaN = false ∧ x.isInfinite = false

theorem finiteIff {x : Binary64} : x.IsFinite ↔ x.exponent < 2047 := by
  have field : x.exponent < 2048 := Nat.mod_lt _ (by decide)
  have other : x.exponent ≠ 2047 ↔ x.exponent < 2047 := by omega
  rw [← other]
  by_cases top : x.exponent = 2047
  · by_cases zero : x.fraction = 0
    · simp [IsFinite, isNaN, isInfinite, top, zero]
    · simp [IsFinite, isNaN, isInfinite, top, zero]
  · simp [IsFinite, isNaN, isInfinite, top]

theorem mantissaBelow (x : Binary64) : x.mantissa < 2 * fractionPlace := by
  have below : x.fraction < fractionPlace := Nat.mod_lt _ (by decide)
  unfold mantissa
  split
  · omega
  · omega

theorem madeBits (negative : Bool) {word : Nat} (finite : word < infiniteMagnitude) :
    (ofMagnitude negative word).bits.toNat = if negative then signPlace + word else word := by
  simp only [infiniteMagnitude, fractionPlace] at finite
  refine UInt64.toNat_ofNat_of_lt' ?_
  simp only [UInt64.size, signPlace]
  split
  · omega
  · omega

theorem madeFields (negative : Bool) {word : Nat} (finite : word < infiniteMagnitude) :
    (ofMagnitude negative word).exponent = word / fractionPlace ∧
      (ofMagnitude negative word).fraction = word % fractionPlace := by
  simp only [exponent, fraction, madeBits negative finite, signPlace]
  simp only [infiniteMagnitude, fractionPlace] at finite ⊢
  split
  · omega
  · omega

theorem madeMagnitude (negative : Bool) {place steps : Nat}
    (full : place = 0 ∨ fractionPlace ≤ steps) (high : steps ≤ 2 * fractionPlace)
    (finite : place * fractionPlace + steps < infiniteMagnitude) :
    (ofMagnitude negative (place * fractionPlace + steps)).IsFinite ∧
      (ofMagnitude negative (place * fractionPlace + steps)).magnitude =
        steps * 2 ^ ((place : Int) - 1074) := by
  obtain ⟨exponent, fraction⟩ := madeFields negative finite
  simp only [infiniteMagnitude, fractionPlace] at full high finite exponent fraction ⊢
  refine ⟨finiteIff.mpr (by omega), ?_⟩
  simp only [magnitude, mantissa, scale, fractionPlace]
  by_cases carried : steps = 2 * 0x10000000000000
  · have top : (ofMagnitude negative (place * 0x10000000000000 + steps)).exponent = place + 2 := by
      omega
    have low : (ofMagnitude negative (place * 0x10000000000000 + steps)).fraction = 0 := by omega
    have step : (((max (place + 2) 1 : Nat) : Int) - 1075) = place - 1074 + 1 := by omega
    rw [top, low, if_neg (by omega), carried, step, zpow_add_one₀ two_ne_zero]
    push_cast
    ring
  by_cases normal : 0x10000000000000 ≤ steps
  · have top : (ofMagnitude negative (place * 0x10000000000000 + steps)).exponent = place + 1 := by
      omega
    have low : 0x10000000000000 +
        (ofMagnitude negative (place * 0x10000000000000 + steps)).fraction = steps := by omega
    have step : (((max (place + 1) 1 : Nat) : Int) - 1075) = place - 1074 := by omega
    rw [top, if_neg (by omega), low, step]
  · have top : (ofMagnitude negative (place * 0x10000000000000 + steps)).exponent = 0 := by omega
    have low : (ofMagnitude negative (place * 0x10000000000000 + steps)).fraction = steps := by
      omega
    have step : (((max 0 1 : Nat) : Int) - 1075) = place - 1074 := by omega
    rw [top, if_pos rfl, low, step]

theorem ofRatioZero (negative : Bool) (den : Nat) :
    (ofRatio negative 0 den).IsFinite ∧ (ofRatio negative 0 den).magnitude = 0 := by
  have made := madeMagnitude negative (.inl rfl : 0 = 0 ∨ fractionPlace ≤ 0) (by decide) (by decide)
  simpa [ofRatio, nearestMagnitude] using made

/-- So many steps of a unit are a ratio rounded. The unit is the spacing of the numbers of the
ratio's order, and no smaller than that of the smallest numbers. -/
structure Stepped (ratio : ℚ) (unit : Int) (steps : Nat) : Prop where
  least : -1074 ≤ unit
  full : unit = -1074 ∨ 2 ^ 52 * 2 ^ unit ≤ ratio
  below : ratio < 2 ^ 53 * 2 ^ unit
  near : |(steps : ℚ) - ratio / 2 ^ unit| ≤ 1 / 2

def Representable (unit : Int) (steps : Nat) : Prop :=
  (unit + 1074).toNat * fractionPlace + steps < infiniteMagnitude

namespace Stepped

variable {unit : Int} {steps : Nat} {ratio : ℚ}

theorem most (stepped : Stepped ratio unit steps) : steps ≤ 2 * fractionPlace := by
  have ratioBelow : ratio / 2 ^ unit < 2 ^ 53 := (div_lt_iff₀ (unitSome unit)).mpr stepped.below
  have error := (abs_le.mp stepped.near).2
  have small : (steps : ℚ) < (2 ^ 53 + 1 : Nat) := by
    push_cast
    linarith
  have small : steps < 2 ^ 53 + 1 := by exact_mod_cast small
  simp only [fractionPlace]
  omega

theorem wide (stepped : Stepped ratio unit steps) : unit = -1074 ∨ fractionPlace ≤ steps := by
  refine stepped.full.imp_right fun full => ?_
  have ratioAbove : 2 ^ 52 ≤ ratio / 2 ^ unit := (le_div_iff₀ (unitSome unit)).mpr full
  have error := (abs_le.mp stepped.near).1
  have large : ((2 ^ 52 : Nat) : ℚ) < (steps + 1 : Nat) := by
    push_cast
    linarith
  have large : 2 ^ 52 < steps + 1 := by exact_mod_cast large
  simp only [fractionPlace]
  omega

theorem error (stepped : Stepped ratio unit steps) :
    |steps * 2 ^ unit - ratio| ≤ 2 ^ unit / 2 := by
  have split : steps * 2 ^ unit - ratio = (steps - ratio / 2 ^ unit) * 2 ^ unit := by
    rw [sub_mul, div_mul_cancel₀ _ (unitSome unit).ne']
  rw [split, abs_mul, abs_of_pos (unitSome unit)]
  linarith [mul_le_mul_of_nonneg_right stepped.near (unitSome unit).le]

end Stepped

theorem nearestStepped {num den : Nat} (some : 0 < num) (some' : 0 < den) :
    ∃ unit steps, Stepped (num / den) unit steps ∧ nearestMagnitude num den =
      min infiniteMagnitude ((unit + 1074).toNat * fractionPlace + steps) := by
  have order := binaryOrderLog some some'
  have positive : (0 : ℚ) < num / den := by positivity
  have low := Int.zpow_log_le_self (b := 2) (by decide) positive
  have high := Int.lt_zpow_succ_log_self (b := 2) (by decide) ((num : ℚ) / den)
  rw [← order] at low high
  push_cast at low high
  refine ⟨_, _, ?_, if_neg (Nat.ne_of_gt some)⟩
  generalize binaryOrder num den = order' at low high ⊢
  generalize chosen : max (order' - 52) (-1074) = unit
  refine ⟨by omega, ?_, ?_, ?_⟩
  · by_cases least : unit = -1074
    · exact .inl least
    · right
      have same : order' = 52 + unit := by omega
      rw [same, zpow_add₀ two_ne_zero] at low
      exact low
  · refine high.trans_le ?_
    calc (2 : ℚ) ^ (order' + 1) ≤ 2 ^ (53 + unit) :=
          zpow_le_zpow_right₀ one_le_two (by omega)
      _ = 2 ^ 53 * 2 ^ unit := zpow_add₀ two_ne_zero 53 unit
  · rw [← unitRatio]
    exact divideEvenError _ (shiftedSome some' _)

theorem ofRatioStepped (negative : Bool) {num den : Nat} (some : 0 < num) (some' : 0 < den) :
    ∃ unit steps, Stepped (num / den) unit steps ∧ (Representable unit steps →
      (ofRatio negative num den).IsFinite ∧
        (ofRatio negative num den).magnitude = steps * 2 ^ unit) := by
  obtain ⟨unit, steps, stepped, rounded⟩ := nearestStepped some some'
  refine ⟨unit, steps, stepped, fun finite => ?_⟩
  have least := stepped.least
  have full : (unit + 1074).toNat = 0 ∨ fractionPlace ≤ steps :=
    stepped.wide.imp_left fun same => by omega
  have made := madeMagnitude negative full stepped.most finite
  have place : (((unit + 1074).toNat : Nat) : Int) - 1074 = unit := by omega
  rw [ofRatio, rounded, min_eq_right (Nat.le_of_lt finite)]
  rwa [place] at made

section

variable {x : Binary64} {ratio : ℚ} {unit : Int} {steps : Nat}

theorem spacedNearby (stepped : Stepped ratio unit steps) (near : |x.magnitude - ratio| < 2 ^ unit / 2) :
    unit ≤ x.scale := by
  by_contra finer
  have full : 2 ^ 52 * 2 ^ unit ≤ ratio := stepped.full.resolve_left (by
    simp only [scale] at finer
    omega)
  have half : (2 : ℚ) ^ x.scale ≤ 2 ^ unit / 2 := by
    calc (2 : ℚ) ^ x.scale ≤ 2 ^ (unit - 1) := zpow_le_zpow_right₀ one_le_two (by omega)
      _ = 2 ^ unit / 2 := zpow_sub_one₀ two_ne_zero unit
  have mantissaMost : (x.mantissa : ℚ) ≤ 2 ^ 53 - 1 := by
    have most : x.mantissa + 1 ≤ 2 ^ 53 := x.mantissaBelow
    have most : (x.mantissa : ℚ) + 1 ≤ 2 ^ 53 := by exact_mod_cast most
    linarith
  have small : x.magnitude ≤ (2 ^ 53 - 1) * (2 ^ unit / 2) :=
    mul_le_mul mantissaMost half (unitSome x.scale).le (by norm_num)
  rw [abs_lt] at near
  linarith [near.1]

theorem magnitudeSteps {n : Nat} (spaced : x.scale = n + unit) :
    x.magnitude = (x.mantissa * 2 ^ n : Nat) * 2 ^ unit := by
  rw [magnitude, spaced, zpow_add₀ two_ne_zero, zpow_natCast]
  push_cast
  ring

theorem roundedNearby (finite : x.IsFinite) (stepped : Stepped ratio unit steps)
    (near : |x.magnitude - ratio| < 2 ^ unit / 2) :
    Representable unit steps ∧ steps * 2 ^ unit = x.magnitude := by
  have spaced := spacedNearby stepped near
  obtain ⟨n, spaced⟩ : ∃ n : Nat, x.scale = n + unit := ⟨(x.scale - unit).toNat, by omega⟩
  have value := magnitudeSteps spaced
  have same : steps = x.mantissa * 2 ^ n := by
    refine nearestUnique stepped.near ?_
    have split : x.magnitude - ratio =
        ((x.mantissa * 2 ^ n : Nat) - ratio / 2 ^ unit) * 2 ^ unit := by
      rw [value, sub_mul, div_mul_cancel₀ _ (unitSome unit).ne']
    rw [split, abs_mul, abs_of_pos (unitSome unit)] at near
    exact lt_of_mul_lt_mul_right (by linarith) (unitSome unit).le
  refine ⟨?_, by rw [same, value]⟩
  have least := stepped.least
  have most := stepped.most
  have mantissaSmall := x.mantissaBelow
  have top : x.scale ≤ 971 := by
    have field := finiteIff.mp finite
    simp only [scale]
    omega
  simp only [Representable, infiniteMagnitude, fractionPlace] at *
  by_cases last : unit = 971
  · have flat : n = 0 := by omega
    rw [flat, Nat.pow_zero, Nat.mul_one] at same
    omega
  · omega

end

end PdfBody.Binary64
