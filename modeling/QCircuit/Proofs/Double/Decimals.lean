import QCircuit.Decimal.Shortest
import QCircuit.Proofs.Double.Rounding
/-! Doubles that decimals are read as.

A decimal is read by a product or a quotient of doubles if both are exact, and otherwise by integers
of any size. Either way the result is its exact value, rounded once. So decimals of equal value are
read as the same double, however they are written. -/
namespace QCircuit
open Float.Model (Format UnpackedFloat totalExponent)
open Float.Model.UnpackedFloat

theorem le_lastPlace {v : ℚ} (positive : 0 < v) {k : Int} (large : 2 ^ (k + 52) ≤ v) :
    k ≤ lastPlace v := by
  have log := (Int.zpow_le_iff_le_log (b := 2) (by decide) positive).mp (by exact_mod_cast large)
  rw [lastPlace]
  omega

section Operations
variable {m₁ m₂ : Nat} {e₁ e₂ : Int} (positive₁ : 0 < m₁) (positive₂ : 0 < m₂)

theorem rounds_mul {v : ℚ} (value : v = m₁ * 2 ^ e₁ * (m₂ * 2 ^ e₂))
    (large : 2 ^ (e₁ + e₂ + 52) ≤ v) :
    Rounds v (mul Format.binary64 (.finite .positive m₁ e₁ positive₁)
      (.finite .positive m₂ e₂ positive₂)) := by
  have positive : 0 < v := (zpow_pos two_pos _).trans_le large
  have scaled : v / 2 ^ (e₁ + e₂) = (m₁ * m₂ : Nat) := by
    rw [value, zpow_add₀ two_ne_zero, Nat.cast_mul]
    have unit₁ := zpow_ne_zero e₁ (two_ne_zero : (2 : ℚ) ≠ 0)
    have unit₂ := zpow_ne_zero e₂ (two_ne_zero : (2 : ℚ) ≠ 0)
    field_simp
  have represents := Represents.exact (m₁ * m₂)
  rw [← scaled] at represents
  exact rounds_roundWithAccuracy positive represents (le_lastPlace positive large)

section Quotient
variable {v : ℚ} (value : v * (m₂ * 2 ^ e₂) = m₁ * 2 ^ e₁)
include positive₂ value

theorem quotient_scaled {t : Int} {k : Nat} (split : e₁ - e₂ = t + k) :
    v / 2 ^ t = (m₁ * 2 ^ k / m₂ : Nat) + ((m₁ * 2 ^ k % m₂ : Nat) : ℚ) / m₂ := by
  have some₂ : (m₂ : ℚ) ≠ 0 := by exact_mod_cast positive₂.ne'
  have unit₂ : (2 : ℚ) ^ e₂ ≠ 0 := zpow_ne_zero e₂ two_ne_zero
  have unit : (2 : ℚ) ^ t ≠ 0 := zpow_ne_zero t two_ne_zero
  have whole : (m₁ : ℚ) * 2 ^ k = m₂ * (m₁ * 2 ^ k / m₂ : Nat) + (m₁ * 2 ^ k % m₂ : Nat) := by
    exact_mod_cast (Nat.div_add_mod (m₁ * 2 ^ k) m₂).symm
  have join : (2 : ℚ) ^ e₁ = 2 ^ e₂ * 2 ^ t * 2 ^ k := by
    rw [← zpow_natCast, ← zpow_add₀ two_ne_zero, ← zpow_add₀ two_ne_zero]
    congr 1
    omega
  rw [join] at value
  have cancelled : v * m₂ = m₁ * 2 ^ k * 2 ^ t := by
    apply mul_right_cancel₀ unit₂
    linear_combination value
  rw [whole] at cancelled
  field_simp
  linarith

include positive₁ in
theorem quotient_large : (2 : ℚ) ^ (m₁.log2 + e₁ - (m₂.log2 + 1 + e₂)) ≤ v := by
  have first : (2 : ℚ) ^ m₁.log2 ≤ m₁ := by exact_mod_cast Nat.log2_self_le positive₁.ne'
  have last : (m₂ : ℚ) ≤ 2 ^ (m₂.log2 + 1) := by exact_mod_cast Nat.lt_log2_self.le
  have some₂ : (0 : ℚ) < m₂ := by exact_mod_cast positive₂
  have unit₁ : (0 : ℚ) < 2 ^ e₁ := zpow_pos two_pos e₁
  have unit₂ : (0 : ℚ) < 2 ^ e₂ := zpow_pos two_pos e₂
  have join : (2 : ℚ) ^ m₁.log2 * 2 ^ e₁ =
      2 ^ (m₁.log2 + e₁ - (m₂.log2 + 1 + e₂)) * (2 ^ (m₂.log2 + 1) * 2 ^ e₂) := by
    rw [← zpow_natCast, ← zpow_natCast, ← zpow_add₀ two_ne_zero, ← zpow_add₀ two_ne_zero,
      ← zpow_add₀ two_ne_zero]
    congr 1
    omega
  rw [← mul_le_mul_iff_left₀ (mul_pos some₂ unit₂), value]
  calc (2 : ℚ) ^ (m₁.log2 + e₁ - (m₂.log2 + 1 + e₂)) * (m₂ * 2 ^ e₂)
      ≤ 2 ^ (m₁.log2 + e₁ - (m₂.log2 + 1 + e₂)) * (2 ^ (m₂.log2 + 1) * 2 ^ e₂) :=
        mul_le_mul_of_nonneg_left (mul_le_mul_of_nonneg_right last unit₂.le) (zpow_pos two_pos _).le
    _ = 2 ^ m₁.log2 * 2 ^ e₁ := join.symm
    _ ≤ m₁ * 2 ^ e₁ := mul_le_mul_of_nonneg_right first unit₁.le

-- The exponent of the quotient is chosen before its first bit is known, and is fine enough for both
-- values of this bit.
theorem rounds_div : Rounds v (div Format.binary64 (.finite .positive m₁ e₁ positive₁)
    (.finite .positive m₂ e₂ positive₂)) := by
  have large := quotient_large positive₁ positive₂ value
  have positive : 0 < v := (zpow_pos two_pos _).trans_le large
  let t := min (e₁ - e₂)
    (Format.binary64.targetExponent (totalExponent m₁ e₁ - totalExponent m₂ e₂))
  obtain ⟨k, split⟩ : ∃ k : Nat, e₁ - e₂ = t + k := ⟨(e₁ - e₂ - t).toNat, by omega⟩
  have shift : (e₁ - e₂ - t).toNat = k := by omega
  have fine : t ≤ lastPlace v := by
    have log := (Int.zpow_le_iff_le_log (b := 2) (by decide) positive).mp (by exact_mod_cast large)
    have precision : Format.binary64.mantissaBits = 53 := rfl
    have least : Format.binary64.minExponent = -1074 := rfl
    apply (min_le_right _ _).trans
    rw [Format.targetExponent, totalExponent, totalExponent, precision, least, lastPlace]
    omega
  have represents := Represents.fraction (Nat.mod_lt (m₁ * 2 ^ k) positive₂) (m₁ * 2 ^ k / m₂)
  rw [← quotient_scaled positive₂ value split] at represents
  have rounds := rounds_roundWithAccuracy positive represents fine
  have core : divCore Format.binary64 m₁ e₁ m₂ e₂ =
      (m₁ * 2 ^ k / m₂, t, accuracyOfFraction (m₁ * 2 ^ k % m₂) m₂) := by
    rw [divCore, shift, Nat.shiftLeft_eq]
  rw [div, core]
  exact rounds

end Quotient
end Operations

theorem IntegerParts.value {n m length : Nat} (parts : IntegerParts n m length) :
    (m : ℚ) * 2 ^ ((length : Int) - 52) = n := by
  have scaled : (n : ℚ) * 2 ^ 52 = m * 2 ^ length := by exact_mod_cast parts.scaled
  rw [zpow_sub₀ two_ne_zero, zpow_natCast]
  rw [← mul_div_assoc, ← scaled]
  exact mul_div_cancel_right₀ _ (by norm_num)

/-- The powers of ten that are doubles. -/
theorem powerOfTen {e : Nat} (small : e ≤ 22) (inside : e < Float.exactlyRepresentablePowersOfTen.size) :
    ∃ m length, ∃ parts : IntegerParts (10 ^ e) m length,
      Float.exactlyRepresentablePowersOfTen[e] = parts.float := by
  refine ⟨10 ^ e * 2 ^ 52 / 2 ^ (10 ^ e).log2, (10 ^ e).log2, ?_⟩
  interval_cases e <;> exact ⟨⟨by decide, by decide, by decide, by decide⟩, rfl⟩

section Exact
variable {n₁ n₂ m₁ m₂ l₁ l₂ : Nat} (parts₁ : IntegerParts n₁ m₁ l₁) (parts₂ : IntegerParts n₂ m₂ l₂)

theorem mul_float : ∃ u, Rounds ((n₁ : ℚ) * n₂) u ∧
    parts₁.float * parts₂.float = Float.ofModel (.pack u) := by
  have full₁ : (2 : ℚ) ^ 52 ≤ m₁ := by exact_mod_cast parts₁.full
  have full₂ : (1 : ℚ) ≤ m₂ := by exact_mod_cast parts₂.positive
  have unit := zpow_pos (two_pos : (0 : ℚ) < 2) (l₁ - 52 + (l₂ - 52))
  have large : (2 : ℚ) ^ ((l₁ - 52 : Int) + (l₂ - 52) + 52) ≤ n₁ * n₂ := by
    rw [← parts₁.value, ← parts₂.value, mul_mul_mul_comm, ← zpow_add₀ two_ne_zero,
      zpow_add₀ two_ne_zero _ 52, mul_comm]
    apply mul_le_mul_of_nonneg_right _ unit.le
    have product := mul_le_mul full₁ full₂ zero_le_one ((by positivity : (0 : ℚ) ≤ 2 ^ 52).trans full₁)
    rw [mul_one] at product
    exact_mod_cast product
  have rounds := rounds_mul parts₁.positive parts₂.positive
    (by rw [parts₁.value, parts₂.value]) large
  refine ⟨_, rounds, ?_⟩
  rw [← parts₁.unpack_float, ← parts₂.unpack_float]
  rfl

theorem div_float : ∃ u, Rounds ((n₁ : ℚ) / n₂) u ∧
    parts₁.float / parts₂.float = Float.ofModel (.pack u) := by
  have some₂ : (n₂ : ℚ) ≠ 0 := by exact_mod_cast parts₂.some.ne'
  have rounds := @rounds_div _ _ _ _ parts₁.positive parts₂.positive ((n₁ : ℚ) / n₂)
    (by rw [parts₁.value, parts₂.value, div_mul_cancel₀ _ some₂])
  refine ⟨_, rounds, ?_⟩
  rw [← parts₁.unpack_float, ← parts₂.unpack_float]
  rfl

end Exact

section Readings
variable {m : Nat} (positive : 0 < m)
include positive

theorem rounds_ofScientific {e : Int} (low : -2048 ≤ e) (high : e ≤ 2048) :
    Rounds (m * 10 ^ e) (ofScientific Format.binary64 m e) := by
  have bits : Format.binary64.exponentBits = 11 := rfl
  have some : (1 : ℚ) ≤ m := by exact_mod_cast positive
  rw [ofScientific, dif_neg positive.ne', bits, if_neg (by omega), if_neg (by omega)]
  by_cases up : 0 ≤ e
  · obtain ⟨k, rfl⟩ := Int.eq_ofNat_of_zero_le up
    have power : (1 : ℚ) ≤ 10 ^ k := one_le_pow₀ (by norm_num)
    have precision : (Format.binary64.mantissaBits : Int) = 53 := rfl
    rw [if_pos up]
    apply rounds_mul
    · have filled : ((m <<< Format.binary64.mantissaBits : Nat) : ℚ) = m * 2 ^ (53 : Int) := by
        rw [Nat.shiftLeft_eq]
        norm_cast
      rw [filled, precision, mul_assoc (m : ℚ), ← zpow_add₀ two_ne_zero]
      simp
    · have product := mul_le_mul some power zero_le_one (zero_le_one.trans some)
      rw [precision, zpow_natCast]
      norm_num at product ⊢
      linarith
  · obtain ⟨k, rfl⟩ : ∃ k : Nat, e = -k := ⟨(-e).toNat, by omega⟩
    rw [if_neg up]
    apply rounds_div
    rw [zpow_neg, zpow_natCast]
    push_cast
    field_simp
    simp

/-- A decimal is read as the double that its value is rounded to. -/
theorem float_ofScientific {e : Nat} (small : e ≤ 2048) (below : Bool) :
    ∃ u, Rounds (m * 10 ^ (if below then -(e : Int) else e)) u ∧
      Float.ofScientific m below e = Float.ofModel (.pack u) := by
  unfold Float.ofScientific
  by_cases fast : m < 2 ^ 53 ∧ e ≤ 22
  · obtain ⟨digits, length, parts⟩ := IntegerParts.of_small positive fast.1.le
    have inside : e < Float.exactlyRepresentablePowersOfTen.size := Nat.lt_succ_of_le fast.2
    obtain ⟨digits', length', parts', power⟩ := powerOfTen fast.2 inside
    rw [dif_pos fast]
    simp only [parts.toFloat_eq fast.1, power]
    cases below with
    | false => simpa using mul_float parts parts'
    | true => simpa [div_eq_mul_inv] using div_float parts parts'
  · rw [dif_neg fast]
    cases below with
    | false => exact ⟨_, rounds_ofScientific positive (by omega) (by omega), rfl⟩
    | true =>
        have sign : Int.negOfNat e = -(e : Int) := Int.negOfNat_eq
        have rounds := rounds_ofScientific positive (e := -(e : Int)) (by omega) (by omega)
        refine ⟨_, rounds, ?_⟩
        rw [← sign]
        rfl

end Readings

namespace Decimal.Scientific

/-- The exact value of a decimal. -/
def value (d : Scientific) : ℚ := d.digits * 10 ^ d.exponent

/-- Decimals that are written without an exponent beyond the range of doubles. -/
structure Moderate (d : Scientific) : Prop where
  positive : 0 < d.digits
  small : d.exponent.natAbs ≤ 2048

variable {d d' : Scientific}

theorem Moderate.rounds (moderate : d.Moderate) :
    ∃ u, Rounds d.value u ∧ d.toFloat = Float.ofModel (.pack u) := by
  have read := float_ofScientific moderate.positive moderate.small (decide (d.exponent < 0))
  have exponent : (if decide (d.exponent < 0) = true then -(d.exponent.natAbs : Int)
      else d.exponent.natAbs) = d.exponent := by
    simp only [decide_eq_true_eq]
    split <;> omega
  rw [exponent] at read
  exact read

/-- Decimals of equal value are read as the same double. -/
theorem Moderate.toFloat_congr (moderate : d.Moderate) (moderate' : d'.Moderate)
    (same : d.value = d'.value) : d.toFloat = d'.toFloat := by
  obtain ⟨u, rounds, read⟩ := moderate.rounds
  obtain ⟨u', rounds', read'⟩ := moderate'.rounds
  rw [← same] at rounds'
  rw [read, read', rounds.unique rounds']

end Decimal.Scientific
end QCircuit
