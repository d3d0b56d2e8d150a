import QCircuit.Proofs.Double.Packing
/-! Integers as doubles.

Rounding leaves a number as it is if 53 bits suffice for it. So an integer that is the value of a
double is converted to this double, and the integers of at most 53 bits all are. -/
namespace QCircuit
open Float.Model (Format UnpackedFloat totalExponent)
open Float.Model.UnpackedFloat

section Rounding
variable {m : Nat} {e : Int}

theorem shiftRight_scaled (m k : Nat) :
    ExtendedMantissa.ofMantissaAndAccuracy (m * 2 ^ k) .exact >>> k =
      ExtendedMantissa.ofMantissaAndAccuracy m .exact := by
  induction k generalizing m with
  | zero => rw [Nat.pow_zero, Nat.mul_one]; rfl
  | succ k ih =>
      have last : ExtendedMantissa.ofMantissaAndAccuracy (m * 2 ^ (k + 1)) .exact >>> (k + 1) =
          (ExtendedMantissa.ofMantissaAndAccuracy (2 * m * 2 ^ k) .exact >>> k).shiftRightOne := by
        rw [Nat.pow_succ', ← Nat.mul_assoc, Nat.mul_comm m 2]
        rfl
      rw [last, ih]
      simp [ExtendedMantissa.shiftRightOne, ExtendedMantissa.ofMantissaAndAccuracy]

theorem log2_scaled (positive : 0 < m) (k : Nat) : (m * 2 ^ k).log2 = m.log2 + k := by
  obtain ⟨low, high⟩ := (Nat.log2_eq_iff (by omega)).mp (Eq.refl m.log2)
  have scaled : m * 2 ^ k ≠ 0 := (Nat.mul_pos positive (Nat.two_pow_pos k)).ne'
  rw [Nat.log2_eq_iff scaled, Nat.pow_add, Nat.add_right_comm, Nat.pow_add]
  exact ⟨Nat.mul_le_mul_right _ low, Nat.mul_lt_mul_of_pos_right high (Nat.two_pow_pos k)⟩

theorem Canonical.target (canonical : Canonical m e) (positive : 0 < m) (k : Nat) :
    Format.binary64.targetExponent (totalExponent (m * 2 ^ k) (e - k)) = e := by
  have bits := log2_scaled positive k
  have below : m.log2 < 53 := (Nat.log2_lt (by omega)).mpr canonical.below
  have low := canonical.low
  have full : 52 ≤ m.log2 ∨ e = -1074 := by
    rw [Nat.le_log2 (by omega)]
    exact canonical.full
  have precision : Format.binary64.mantissaBits = 53 := rfl
  have least : Format.binary64.minExponent = -1074 := rfl
  rw [Format.targetExponent, totalExponent, bits, precision, least]
  omega

theorem Canonical.shiftToTarget (canonical : Canonical m e) (positive : 0 < m) (k : Nat) :
    shiftToTargetExponent Format.binary64 (m * 2 ^ k) (e - k) .exact =
      (ExtendedMantissa.ofMantissaAndAccuracy m .exact, e) := by
  have shift : (e - (e - k)).toNat = k := by omega
  rw [shiftToTargetExponent, canonical.target positive, shiftToExponent, shift, shiftRight_scaled]
  simp

-- Nothing is cut off, so the second shift does nothing.
theorem Canonical.round (canonical : Canonical m e) (positive : 0 < m) (s : Sign) (k : Nat) :
    roundWithAccuracy Format.binary64 s (m * 2 ^ k) (e - k) .exact = .finite s m e positive := by
  have again := canonical.shiftToTarget positive 0
  rw [Nat.pow_zero, Nat.mul_one, Int.natCast_zero, Int.sub_zero] at again
  rw [roundWithAccuracy, canonical.shiftToTarget positive]
  have rounded : (ExtendedMantissa.ofMantissaAndAccuracy m .exact).roundedMantissa = m := rfl
  have kept : (ExtendedMantissa.ofMantissaAndAccuracy m .exact).mantissa = m := rfl
  simp only [rounded, again, kept]
  exact dif_neg positive.ne'

end Rounding

/-- A positive integer of this length whose first 53 bits, filled up with zeros, are `m` and whose
other bits are zero. -/
structure IntegerParts (n m length : Nat) : Prop where
  below : m < 2 ^ 53
  full : 2 ^ 52 ≤ m
  short : length ≤ 1023
  scaled : n * 2 ^ 52 = m * 2 ^ length

namespace IntegerParts
variable {n m length : Nat}

theorem of_small (some : 0 < n) (small : n ≤ 2 ^ 53) : ∃ m length, IntegerParts n m length := by
  by_cases last : n = 2 ^ 53
  · exact ⟨2 ^ 52, 53, by decide, Nat.le_refl _, by decide, by rw [last, Nat.mul_comm]⟩
  · obtain ⟨low, high⟩ := (Nat.log2_eq_iff (by omega)).mp (Eq.refl n.log2)
    have short : n.log2 < 53 := (Nat.log2_lt (by omega)).mpr (by omega)
    have filled : 2 ^ n.log2 * 2 ^ (52 - n.log2) = 2 ^ 52 := by
      rw [← Nat.pow_add, Nat.add_sub_cancel' (by omega)]
    have positive := Nat.two_pow_pos (52 - n.log2)
    refine ⟨n * 2 ^ (52 - n.log2), n.log2, ?_, ?_, by omega, ?_⟩
    · calc n * 2 ^ (52 - n.log2)
          < 2 ^ (n.log2 + 1) * 2 ^ (52 - n.log2) := Nat.mul_lt_mul_of_pos_right high positive
        _ = 2 ^ 53 := by rw [Nat.pow_succ', Nat.mul_assoc, filled, ← Nat.pow_succ']
    · rw [← filled]
      exact Nat.mul_le_mul_right _ low
    · rw [Nat.mul_assoc, ← Nat.pow_add]
      congr 2
      omega

variable (parts : IntegerParts n m length)
include parts

theorem positive : 0 < m := Nat.lt_of_lt_of_le (by decide) parts.full

theorem canonical : Canonical m (length - 52) := by
  have short := parts.short
  exact ⟨parts.below, .inl parts.full, by omega, by omega⟩

theorem some : 0 < n := by
  have right := Nat.mul_pos parts.positive (Nat.two_pow_pos length)
  rw [← parts.scaled] at right
  exact Nat.pos_of_mul_pos_right right

theorem log2_eq : n.log2 = length := by
  have bits := congrArg Nat.log2 parts.scaled
  have full : m.log2 = 52 := (Nat.log2_eq_iff parts.positive.ne').mpr ⟨parts.full, parts.below⟩
  rw [log2_scaled parts.some, log2_scaled parts.positive, full] at bits
  omega

theorem target : Format.binary64.targetExponent (totalExponent n 0) = length - 52 := by
  have precision : Format.binary64.mantissaBits = 53 := rfl
  have least : Format.binary64.minExponent = -1074 := rfl
  rw [Format.targetExponent, totalExponent, parts.log2_eq, precision, least]
  omega

/-- The double with these parts. -/
def float : Float := .ofModel (.pack (.finite .positive m (length - 52) parts.positive))

theorem unpack_float :
    parts.float.toModel.unpack = .finite .positive m (length - 52) parts.positive :=
  unpack_ofModel_pack parts.canonical

theorem toFloat_eq (small : n < 2 ^ 53) : n.toUInt64.toFloat = parts.float := by
  have some := parts.some
  have whole : n.toUInt64.toNat = n := Nat.mod_eq_of_lt (by omega)
  have above : compare (n : Int) 0 = .gt := Int.compare_eq_gt.mpr (by omega)
  have exact := parts.canonical.round parts.positive .positive 0
  rw [Nat.pow_zero, Nat.mul_one, Int.natCast_zero, Int.sub_zero] at exact
  have fits : length ≤ 52 := by
    have bits := (Nat.log2_lt some.ne').mpr small
    rw [parts.log2_eq] at bits
    omega
  have filled : n * 2 ^ (52 - length) = m := by
    apply Nat.eq_of_mul_eq_mul_right (Nat.two_pow_pos length)
    rw [Nat.mul_assoc, ← Nat.pow_add, Nat.sub_add_cancel fits, parts.scaled]
  have shift : (0 - ((length : Int) - 52)).toNat = 52 - length := by omega
  have shifted : decreaseExponent n 0 (length - 52) = (m, (length : Int) - 52) := by
    have lowered : (0 : Int) - (52 - length : Nat) = length - 52 := by omega
    simp only [decreaseExponent, shift, Nat.shiftLeft_eq, filled, lowered]
  rw [UInt64.toFloat, Float.Model.ofUInt64, ofUInt64, whole, UnpackedFloat.ofNat,
    UnpackedFloat.ofInt, UnpackedFloat.normalize, above]
  simp only [Int.toNat_natCast, UnpackedFloat.round, parts.target, shifted, exact]
  rfl

theorem ofNat_eq : Float.ofNat n = parts.float := by
  change Float.ofScientific n false 0 = _
  unfold Float.ofScientific
  by_cases small : n < 2 ^ 53
  · rw [dif_pos ⟨small, Nat.zero_le _⟩, parts.toFloat_eq small]
    -- The product with the zeroth power of ten.
    have unit : (Float.exactlyRepresentablePowersOfTen[0]).toModel.unpack =
        .finite .positive (2 ^ 52) (-52) (by decide) := by rfl
    have product : mul Format.binary64 parts.float.toModel.unpack
        (Float.exactlyRepresentablePowersOfTen[0]).toModel.unpack =
          .finite .positive m (length - 52) parts.positive := by
      rw [parts.unpack_float, unit]
      exact parts.canonical.round parts.positive .positive 52
    exact congrArg (fun u => Float.ofModel (.pack u)) product
  · rw [dif_neg (fun both => small both.1)]
    have slow : ofScientific Format.binary64 n 0 =
        .finite .positive m (length - 52) parts.positive := by
      have exact := parts.canonical.round parts.positive .positive (length + 1)
      have wide : (n <<< 53) * 10 ^ 0 = m * 2 ^ (length + 1) := by
        rw [Nat.shiftLeft_eq, Nat.pow_succ 2 length, ← Nat.mul_assoc, ← parts.scaled]
        omega
      have lowered : (length : Int) - 52 - (length + 1 : Nat) = -53 := by omega
      rw [lowered, ← wide] at exact
      have bounded : ¬ (0 : Int) < -((2 ^ Format.binary64.exponentBits : Int) + n.log2) := by
        rw [parts.log2_eq]
        change ¬ (0 : Int) < -(2048 + (length : Int))
        omega
      rw [ofScientific, dif_neg parts.some.ne', if_neg (by decide), if_neg bounded,
        if_pos (Int.le_refl 0)]
      exact exact
    exact congrArg (fun u => Float.ofModel (.pack u)) slow

theorem integer?_eq (negative : Bool) :
    Decimal.Binary64.integer? (.finite negative m (length - 52)) =
      Option.some (if negative then -(n : Int) else n) := by
  have scaled := parts.scaled
  by_cases long : 52 ≤ length
  · have up : (0 : Int) ≤ length - 52 := by omega
    have amount : ((length : Int) - 52).natAbs = length - 52 := by omega
    have value : m * Nat.pow 2 (length - 52) = n := by
      apply Nat.eq_of_mul_eq_mul_right (Nat.two_pow_pos 52)
      rw [Nat.pow_eq, Nat.mul_assoc, ← Nat.pow_add, Nat.sub_add_cancel long, scaled]
    simp only [Decimal.Binary64.integer?, Decimal.Binary64.integer?.signed, if_pos up, amount, value]
  · have down : ¬ (0 : Int) ≤ length - 52 := by omega
    have amount : ((length : Int) - 52).natAbs = 52 - length := by omega
    have value : n * Nat.pow 2 (52 - length) = m := by
      apply Nat.eq_of_mul_eq_mul_right (Nat.two_pow_pos length)
      rw [Nat.pow_eq, Nat.mul_assoc, ← Nat.pow_add, Nat.sub_add_cancel (by omega), scaled]
    have exact : m % Nat.pow 2 (52 - length) = 0 := by
      rw [← value, Nat.mul_mod_left]
    have quotient : m / Nat.pow 2 (52 - length) = n := by
      rw [← value]
      exact Nat.mul_div_cancel n (Nat.two_pow_pos _)
    simp only [Decimal.Binary64.integer?, Decimal.Binary64.integer?.signed, if_neg down, amount,
      if_pos exact, quotient]

end IntegerParts

theorem signed_eq_iff {negative : Bool} {n : Nat} {k : Int} (some : k ≠ 0) :
    Decimal.Binary64.integer?.signed negative n = k ↔
      k.natAbs = n ∧ negative = decide (k < 0) := by
  unfold Decimal.Binary64.integer?.signed
  cases negative with
  | false =>
      simp only [Bool.false_eq_true, if_false, false_eq_decide_iff]
      omega
  | true =>
      simp only [if_true, true_eq_decide_iff]
      omega

/-- The parts of a double that is an integer other than zero. -/
theorem Canonical.integerParts {m : Nat} {e : Int} (canonical : Canonical m e) {negative : Bool}
    {k : Int} (value : Decimal.Binary64.integer? (.finite negative m e) = some k) (some : k ≠ 0) :
    ∃ length : Nat, e = length - 52 ∧ IntegerParts k.natAbs m length ∧ negative = decide (k < 0) := by
  have below := canonical.below
  have high := canonical.high
  by_cases up : 0 ≤ e
  · simp only [Decimal.Binary64.integer?, if_pos up, Option.some.injEq, signed_eq_iff some] at value
    obtain ⟨size, sign⟩ := value
    obtain ⟨j, rfl⟩ := Int.eq_ofNat_of_zero_le up
    have full : 2 ^ 52 ≤ m := canonical.full.resolve_right (by omega)
    refine ⟨j + 52, by omega, ⟨below, full, by omega, ?_⟩, sign⟩
    rw [size, Int.natAbs_natCast, Nat.pow_eq, Nat.mul_assoc, ← Nat.pow_add]
  · obtain ⟨j, rfl⟩ : ∃ j : Nat, e = -j := ⟨(-e).toNat, by omega⟩
    simp only [Decimal.Binary64.integer?, if_neg up, Int.natAbs_neg, Int.natAbs_natCast,
      Nat.pow_eq] at value
    by_cases exact : m % 2 ^ j = 0
    · rw [if_pos exact, Option.some.injEq, signed_eq_iff some] at value
      obtain ⟨size, sign⟩ := value
      have whole : k.natAbs * 2 ^ j = m := by
        rw [size]
        exact Nat.div_mul_cancel (Nat.dvd_of_mod_eq_zero exact)
      have short : j < 53 := by
        apply (Nat.pow_lt_pow_iff_right (by decide : 1 < 2)).mp
        calc 2 ^ j ≤ k.natAbs * 2 ^ j := Nat.le_mul_of_pos_left _ (by omega)
          _ < 2 ^ 53 := by rwa [whole]
      have full : 2 ^ 52 ≤ m := canonical.full.resolve_right (by omega)
      refine ⟨52 - j, by omega, ⟨below, full, by omega, ?_⟩, sign⟩
      rw [← whole, Nat.mul_assoc, ← Nat.pow_add, Nat.add_sub_cancel' (by omega)]
    · rw [if_neg exact] at value
      cases value

theorem integer?_zero (negative : Bool) (e : Int) :
    Decimal.Binary64.integer? (.finite negative 0 e) = some 0 := by
  simp [Decimal.Binary64.integer?, Decimal.Binary64.integer?.signed]

theorem unpack_ofInt {k : Int} {m length : Nat} (parts : IntegerParts k.natAbs m length) :
    (Float.ofInt k).toModel.unpack =
      .finite (if k < 0 then .negative else .positive) m (length - 52) parts.positive := by
  cases k with
  | ofNat n =>
      have converted : Float.ofInt (.ofNat n) = parts.float := IntegerParts.ofNat_eq parts
      have above : ¬ Int.ofNat n < 0 := Int.not_lt.mpr (Int.natCast_nonneg n)
      rw [converted, parts.unpack_float, if_neg above]
  | negSucc n =>
      have converted : Float.ofInt (.negSucc n) = -parts.float :=
        congrArg Float.neg (IntegerParts.ofNat_eq parts)
      rw [converted, unpack_neg, parts.unpack_float, if_pos (Int.negSucc_lt_zero n)]
      rfl

namespace Decimal

theorem isFinite_of_integer? {x : Float} {k : Int} (value : integer? x = some k) :
    x.isFinite = true := by
  have parts : x.isFinite = x.toModel.unpack.isFinite := rfl
  rw [integer?, Binary64.ofFloat_eq] at value
  rw [parts]
  cases u : x.toModel.unpack with
  | finite | zero => rfl
  | infinity s => simp [u, Binary64.integer?] at value
  | notANumber => simp [u, Binary64.integer?] at value

/-- An integer that is the value of a double is converted to this double. -/
theorem ofInt_of_integer? {x : Float} {k : Int} (value : integer? x = some k) (some : k ≠ 0) :
    Float.ofInt k = x := by
  have double : OfDouble x.toModel.unpack := unpack_ofDouble _
  rw [integer?, Binary64.ofFloat_eq] at value
  cases u : x.toModel.unpack with
  | finite s m e positive =>
      rw [u] at value double
      obtain ⟨length, rfl, parts, sign⟩ := Canonical.integerParts double value some
      apply float_ext
      rw [unpack_ofInt parts, u]
      cases s with
      | negative => rw [if_pos (of_decide_eq_true sign.symm)]
      | positive => rw [if_neg (of_decide_eq_false sign.symm)]
  | zero s =>
      rw [u] at value
      simp only [integer?_zero, Option.some.injEq] at value
      exact absurd value.symm some
  | infinity s => simp [u, Binary64.integer?] at value
  | notANumber => simp [u, Binary64.integer?] at value

theorem integer?_ofInt {k : Int} (small : k.natAbs ≤ 2 ^ 53) :
    integer? (Float.ofInt k) = some k := by
  by_cases none : k = 0
  · have zero : (Float.ofInt 0).toModel.unpack = .zero .positive := by rfl
    rw [none, integer?, Binary64.ofFloat_eq, zero]
    exact integer?_zero _ _
  · obtain ⟨m, length, parts⟩ := IntegerParts.of_small (Int.natAbs_pos.mpr none) small
    rw [integer?, Binary64.ofFloat_eq, unpack_ofInt parts]
    by_cases below : k < 0
    · have size : -(k.natAbs : Int) = k := by omega
      simp only [if_pos below]
      rw [parts.integer?_eq]
      exact congrArg Option.some size
    · have size : (k.natAbs : Int) = k := by omega
      simp only [if_neg below]
      rw [parts.integer?_eq]
      exact congrArg Option.some size

end Decimal
end QCircuit
