import QCircuit.Proofs.Double.Integers
/-! Rounding of exact values.

Arithmetic on doubles keeps the first bits of an exact value with two more: the bit behind them, and
whether anything is left. These are determined by the value, so the double that a value is rounded
to depends on nothing but the value, and it is a given double if the value is nearer to it than to
its neighbours. -/
namespace QCircuit
open Float.Model (Format UnpackedFloat totalExponent)
open Float.Model.UnpackedFloat

/-- The mantissa is the whole part of a value, and the two bits place the rest. -/
def Represents : ExtendedMantissa → ℚ → Prop
  | ⟨m, false, false⟩, x => x = m
  | ⟨m, false, true⟩, x => m < x ∧ x < m + 1 / 2
  | ⟨m, true, false⟩, x => x = m + 1 / 2
  | ⟨m, true, true⟩, x => m + 1 / 2 < x ∧ x < m + 1

namespace Represents
variable {em em' : ExtendedMantissa} {x : ℚ}

theorem floor (represents : Represents em x) : (em.mantissa : ℚ) ≤ x ∧ x < em.mantissa + 1 := by
  obtain ⟨m, half, rest⟩ := em
  cases half <;> cases rest <;> simp only [Represents] at represents ⊢ <;> constructor <;> linarith

theorem unique (represents : Represents em x) (represents' : Represents em' x) : em = em' := by
  obtain ⟨low, high⟩ := represents.floor
  obtain ⟨low', high'⟩ := represents'.floor
  have upper : em.mantissa < em'.mantissa + 1 := by exact_mod_cast low.trans_lt high'
  have lower : em'.mantissa < em.mantissa + 1 := by exact_mod_cast low'.trans_lt high
  obtain ⟨m, half, rest⟩ := em
  obtain ⟨m', half', rest'⟩ := em'
  obtain rfl : m = m' := by
    simp only at upper lower
    omega
  cases half <;> cases rest <;> cases half' <;> cases rest' <;>
    simp only [Represents] at represents represents' <;> first | rfl | (exfalso; linarith)

theorem shiftRightOne (represents : Represents em x) : Represents em.shiftRightOne (x / 2) := by
  obtain ⟨m, half, rest⟩ := em
  have split : (m : ℚ) = 2 * (m / 2 : Nat) + (m % 2 : Nat) := by
    exact_mod_cast (Nat.div_add_mod m 2).symm
  rcases Nat.mod_two_eq_zero_or_one m with even | odd
  · have bit : (m % 2 != 0) = false := by rw [even]; rfl
    rw [even, Nat.cast_zero] at split
    cases half <;> cases rest <;>
      simp only [Represents, ExtendedMantissa.shiftRightOne, bit, Bool.or_true,
        Bool.or_false] at represents ⊢ <;>
      first | linarith | (constructor <;> linarith)
  · have bit : (m % 2 != 0) = true := by rw [odd]; rfl
    rw [odd, Nat.cast_one] at split
    cases half <;> cases rest <;>
      simp only [Represents, ExtendedMantissa.shiftRightOne, bit, Bool.or_true,
        Bool.or_false] at represents ⊢ <;>
      first | linarith | (constructor <;> linarith)

theorem shiftRight (represents : Represents em x) (n : Nat) : Represents (em >>> n) (x / 2 ^ n) := by
  induction n with
  | zero =>
      rw [pow_zero, div_one]
      exact represents
  | succ n ih =>
      rw [pow_succ, ← div_div]
      exact ih.shiftRightOne

theorem exact (m : Nat) : Represents (.ofMantissaAndAccuracy m .exact) m := rfl

theorem fraction {remainder denominator : Nat} (less : remainder < denominator) (m : Nat) :
    Represents (.ofMantissaAndAccuracy m (accuracyOfFraction remainder denominator))
      (m + remainder / denominator) := by
  have positive : (0 : ℚ) < denominator := by exact_mod_cast Nat.zero_lt_of_lt less
  have below : (remainder : ℚ) / denominator < 1 := by
    rw [div_lt_one positive]
    exact_mod_cast less
  by_cases none : remainder = 0
  · rw [accuracyOfFraction, if_pos none, none, Nat.cast_zero, zero_div, add_zero]
    rfl
  · have some : (0 : ℚ) < remainder / denominator := by
      have inside : (0 : ℚ) < remainder := by exact_mod_cast Nat.pos_of_ne_zero none
      exact div_pos inside positive
    rw [accuracyOfFraction, if_neg none]
    rcases lt_trichotomy (2 * remainder) denominator with nearer | tie | farther
    · have part : (remainder : ℚ) / denominator < 1 / 2 := by
        rw [div_lt_div_iff₀ positive two_pos]
        exact_mod_cast (by omega : remainder * 2 < 1 * denominator)
      rw [Nat.compare_eq_lt.mpr nearer]
      exact ⟨by linarith, by linarith⟩
    · have part : (remainder : ℚ) / denominator = 1 / 2 := by
        rw [div_eq_div_iff positive.ne' two_ne_zero]
        exact_mod_cast (by omega : remainder * 2 = 1 * denominator)
      rw [Nat.compare_eq_eq.mpr tie, part]
      rfl
    · have part : 1 / 2 < (remainder : ℚ) / denominator := by
        rw [div_lt_div_iff₀ two_pos positive]
        exact_mod_cast (by omega : 1 * denominator < remainder * 2)
      rw [Nat.compare_eq_gt.mpr farther]
      exact ⟨by linarith, by linarith⟩

theorem roundedMantissa_of_near (represents : Represents em x) {m : Nat} (low : (m : ℚ) - 1 / 2 < x)
    (high : x < m + 1 / 2) : em.roundedMantissa = m := by
  obtain ⟨n, half, rest⟩ := em
  have cases : n = m ∨ n + 1 = m := by
    obtain ⟨low', high'⟩ := represents.floor
    simp only at low' high'
    have upper : (n : ℚ) < m + 1 := by linarith
    have lower : (m : ℚ) < n + 2 := by linarith
    have upper' : n < m + 1 := by exact_mod_cast upper
    have lower' : m < n + 2 := by exact_mod_cast lower
    omega
  rcases cases with rfl | rfl
  · cases half <;> cases rest <;> simp only [Represents] at represents <;>
      first | rfl | (exfalso; linarith)
  · rw [Nat.cast_add, Nat.cast_one] at low high
    cases half <;> cases rest <;> simp only [Represents] at represents <;>
      first | rfl | (exfalso; linarith)

end Represents

/-- The exponent of the last place that is kept of a positive value. -/
def lastPlace (v : ℚ) : Int := max (Int.log 2 v - 52) (-1074)

theorem log_eq {v : ℚ} (positive : 0 < v) {k : Int} (low : 2 ^ k ≤ v) (high : v < 2 ^ (k + 1)) :
    Int.log 2 v = k := by
  have lower := (Int.zpow_le_iff_le_log (b := 2) (by decide) positive).mp (by exact_mod_cast low)
  have upper := (Int.lt_zpow_iff_log_lt (b := 2) (by decide) positive).mp (by exact_mod_cast high)
  omega

-- The whole part of a value tells its exponent, unless that is the least one in any case.
theorem targetExponent_eq {v : ℚ} (positive : 0 < v) {m : Nat} {e : Int} (low : (m : ℚ) ≤ v / 2 ^ e)
    (high : v / 2 ^ e < m + 1) (fine : e ≤ lastPlace v) :
    Format.binary64.targetExponent (totalExponent m e) = lastPlace v := by
  have unit : (0 : ℚ) < 2 ^ e := zpow_pos two_pos e
  rw [le_div_iff₀ unit] at low
  rw [div_lt_iff₀ unit] at high
  have precision : Format.binary64.mantissaBits = 53 := rfl
  have least : Format.binary64.minExponent = -1074 := rfl
  rw [Format.targetExponent, totalExponent, precision, least]
  by_cases none : m = 0
  · subst none
    rw [Nat.cast_zero, zero_add, one_mul] at high
    have below := (Int.lt_zpow_iff_log_lt (b := 2) (by decide) positive).mp (by exact_mod_cast high)
    have zero : Nat.log2 0 = 0 := rfl
    rw [lastPlace] at fine ⊢
    rw [zero]
    omega
  · obtain ⟨low', high'⟩ := (Nat.log2_eq_iff none).mp (Eq.refl m.log2)
    have log : Int.log 2 v = m.log2 + e := by
      apply log_eq positive
      · rw [zpow_add₀ two_ne_zero, zpow_natCast]
        have first : (2 : ℚ) ^ m.log2 ≤ m := by exact_mod_cast low'
        exact (mul_le_mul_of_nonneg_right first unit.le).trans low
      · have next : ((m.log2 : Int) + e + 1) = (m.log2 + 1 : Nat) + e := by omega
        rw [next, zpow_add₀ two_ne_zero, zpow_natCast]
        have last : (m : ℚ) + 1 ≤ 2 ^ (m.log2 + 1) := by exact_mod_cast high'
        exact high.trans_le (mul_le_mul_of_nonneg_right last unit.le)
    rw [lastPlace, log]
    omega

/-- The double with this mantissa and exponent, once a carry into a further bit is settled. -/
def carried (m : Nat) (e : Int) : UnpackedFloat :=
  let last := shiftToTargetExponent Format.binary64 m e .exact
  if none : last.1.mantissa = 0 then .zero .positive
  else .finite .positive last.1.mantissa last.2 (Nat.pos_of_ne_zero none)

/-- The double that a positive value is rounded to. -/
def Rounds (v : ℚ) (u : UnpackedFloat) : Prop :=
  ∃ em, Represents em (v / 2 ^ lastPlace v) ∧ u = carried em.roundedMantissa (lastPlace v)

theorem Rounds.unique {v : ℚ} {u u' : UnpackedFloat} (rounds : Rounds v u) (rounds' : Rounds v u') :
    u = u' := by
  obtain ⟨em, represents, rfl⟩ := rounds
  obtain ⟨em', represents', rfl⟩ := rounds'
  rw [represents.unique represents']

theorem rounds_roundWithAccuracy {v : ℚ} (positive : 0 < v) {m : Nat} {e : Int} {a : Accuracy}
    (represents : Represents (.ofMantissaAndAccuracy m a) (v / 2 ^ e)) (fine : e ≤ lastPlace v) :
    Rounds v (roundWithAccuracy Format.binary64 .positive m e a) := by
  have whole : (ExtendedMantissa.ofMantissaAndAccuracy m a).mantissa = m := by
    rcases a with _ | (_ | _ | _) <;> rfl
  obtain ⟨low, high⟩ := represents.floor
  rw [whole] at low high
  have aim := targetExponent_eq positive low high fine
  have amount : ((lastPlace v - e).toNat : Int) = lastPlace v - e := Int.toNat_of_nonneg (by omega)
  have shifted := represents.shiftRight (lastPlace v - e).toNat
  rw [div_div, ← zpow_natCast, amount, ← zpow_add₀ two_ne_zero, add_sub_cancel] at shifted
  have shift : shiftToTargetExponent Format.binary64 m e a =
      (ExtendedMantissa.ofMantissaAndAccuracy m a >>> (lastPlace v - e).toNat, lastPlace v) := by
    rw [shiftToTargetExponent, aim, shiftToExponent, amount, add_sub_cancel]
  refine ⟨_, shifted, ?_⟩
  rw [roundWithAccuracy, shift]
  rfl

theorem Canonical.carried_eq {m : Nat} {e : Int} (canonical : Canonical m e) (positive : 0 < m) (k : Nat) :
    carried (m * 2 ^ k) (e - k) = .finite .positive m e positive := by
  have kept : (ExtendedMantissa.ofMantissaAndAccuracy m .exact).mantissa = m := rfl
  rw [carried]
  simp only [canonical.shiftToTarget positive, kept]
  exact dif_neg positive.ne'

section Near
variable {m : Nat} {e : Int} {v : ℚ} {u : UnpackedFloat}

theorem Rounds.of_lastPlace (rounds : Rounds v u) (same : lastPlace v = e) {n : Nat}
    (low : ((n : ℚ) - 1 / 2) * 2 ^ e < v) (high : v < (n + 1 / 2) * 2 ^ e) : u = carried n e := by
  obtain ⟨em, represents, rfl⟩ := rounds
  have unit : (0 : ℚ) < 2 ^ e := zpow_pos two_pos e
  rw [same] at represents ⊢
  rw [← lt_div_iff₀ unit] at low
  rw [← div_lt_iff₀ unit] at high
  rw [represents.roundedMantissa_of_near low high]

-- Below a power of two, where doubles are twice as dense.
theorem Canonical.rounds_below_power (canonical : Canonical (2 ^ 52) e) (other : e ≠ -1074)
    (rounds : Rounds v u) (close : ((2 : ℚ) ^ 52 - 1 / 4) * 2 ^ e < v) (less : v < 2 ^ 52 * 2 ^ e) :
    u = .finite .positive (2 ^ 52) e (by decide) := by
  have least := canonical.low
  have half : (2 : ℚ) ^ e = 2 * 2 ^ (e - 1) := by
    rw [zpow_sub_one₀ two_ne_zero]
    ring
  have unit : (0 : ℚ) < 2 ^ (e - 1) := zpow_pos two_pos _
  rw [half] at close less
  norm_num at close less
  have log : Int.log 2 v = e + 51 := by
    apply log_eq (by linarith)
    · have split : e + 51 = (e - 1) + 52 := by omega
      rw [split, zpow_add₀ two_ne_zero]
      norm_num
      linarith
    · have split : e + 51 + 1 = (e - 1) + 53 := by omega
      rw [split, zpow_add₀ two_ne_zero]
      norm_num
      linarith
  have aim : lastPlace v = e - 1 := by
    rw [lastPlace]
    omega
  have doubled : u = carried (2 ^ 52 * 2 ^ 1) (e - 1) := by
    apply rounds.of_lastPlace aim
    · norm_num
      linarith
    · norm_num
      linarith
  rw [doubled]
  exact canonical.carried_eq (by decide) 1

/-- A value that is nearer to a double than to its neighbours is rounded to it. The neighbour below a
power of two is half as far away as the one above. -/
theorem Canonical.rounds_near (canonical : Canonical m e) (positive : 0 < m) (rounds : Rounds v u)
    (low : ((m : ℚ) - 1 / 2) * 2 ^ e < v) (high : v < (m + 1 / 2) * 2 ^ e)
    (power : m = 2 ^ 52 → ((m : ℚ) - 1 / 4) * 2 ^ e < v) : u = .finite .positive m e positive := by
  have unit : (0 : ℚ) < 2 ^ e := zpow_pos two_pos e
  have some : (1 : ℚ) ≤ m := by exact_mod_cast positive
  have below : (m : ℚ) + 1 ≤ 2 ^ 53 := by exact_mod_cast canonical.below
  have least := canonical.low
  have inside : 0 < v := lt_trans (mul_pos (by linarith) unit) low
  by_cases same : 2 ^ (e + 52) ≤ v ∨ e = -1074
  · have upper : v < 2 ^ (e + 53) := by
      rw [zpow_add₀ two_ne_zero, mul_comm]
      refine high.trans_le (mul_le_mul_of_nonneg_right ?_ unit.le)
      norm_num at below ⊢
      linarith
    have log : Int.log 2 v < e + 53 :=
      (Int.lt_zpow_iff_log_lt (b := 2) (by decide) inside).mp (by exact_mod_cast upper)
    have aim : lastPlace v = e := by
      rw [lastPlace]
      rcases same with full | rfl
      · have log' : e + 52 ≤ Int.log 2 v :=
          (Int.zpow_le_iff_le_log (b := 2) (by decide) inside).mp (by exact_mod_cast full)
        omega
      · omega
    have settled := canonical.carried_eq positive 0
    rw [Nat.pow_zero, Nat.mul_one, Int.natCast_zero, Int.sub_zero] at settled
    rw [rounds.of_lastPlace aim low high, settled]
  · push Not at same
    obtain ⟨less, other⟩ := same
    have full := canonical.full.resolve_right other
    rw [zpow_add₀ two_ne_zero, mul_comm] at less
    -- The least mantissa is the only one with values nearest to it that lie below its power of two.
    obtain rfl : m = 2 ^ 52 := by
      have first : (m : ℚ) - 1 / 2 < 2 ^ (52 : Int) := by
        rw [← mul_lt_mul_iff_left₀ unit]
        exact low.trans less
      have whole : 2 * (m : ℚ) < 2 ^ 53 + 1 := by
        norm_num at first ⊢
        linarith
      have whole' : 2 * m < 2 ^ 53 + 1 := by exact_mod_cast whole
      omega
    have close := power rfl
    push_cast at close
    exact canonical.rounds_below_power other rounds close less

end Near
end QCircuit
