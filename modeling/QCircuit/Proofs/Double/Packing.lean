import Mathlib
import QCircuit.Decimal.Binary64
/-! Doubles and their parts.

A double is packed from a sign, a mantissa and an exponent, and is taken apart into these again. On
the parts that a double can have, packing and taking apart undo each other. So a change of sign is a
change of this part alone, and the exact value of a double can be read from its parts. -/
namespace QCircuit
open Float.Model (Format UnpackedFloat)
open Float.Model.UnpackedFloat

/-- The mantissa has 53 bits, or fewer at the least exponent. -/
structure Canonical (m : Nat) (e : Int) : Prop where
  below : m < 2 ^ 53
  full : 2 ^ 52 ≤ m ∨ e = -1074
  low : -1074 ≤ e
  high : e ≤ 971

/-- The parts are those of a double. -/
def OfDouble : UnpackedFloat → Prop
  | .finite _ m e _ => Canonical m e
  | _ => True

theorem exists_packComponents (b : BitVec Format.binary64.numBits) :
    ∃ s exponent mantissa, packComponents Format.binary64 s exponent mantissa = b :=
  ⟨_, _, _, packComponents_unpackSign_unpackExponent_unpackMantissa b⟩

theorem toNat_packComponents (s : Sign) (exponent : BitVec 11) (mantissa : BitVec 52) :
    (packComponents Format.binary64 s exponent mantissa).toNat =
      (s.toBitVec.toNat * 2 ^ 11 + exponent.toNat) * 2 ^ 52 + mantissa.toNat := by
  change (s.toBitVec ++ exponent ++ mantissa).toNat = _
  rw [BitVec.toNat_append, BitVec.toNat_append, ← Nat.shiftLeft_add_eq_or_of_lt mantissa.isLt,
    ← Nat.shiftLeft_add_eq_or_of_lt exponent.isLt, Nat.shiftLeft_eq, Nat.shiftLeft_eq]

theorem toNat_one_append (mantissa : BitVec 52) :
    (1#1 ++ mantissa).toNat = 2 ^ 52 + mantissa.toNat := by
  rw [BitVec.toNat_append, ← Nat.shiftLeft_add_eq_or_of_lt mantissa.isLt]
  rfl

/-- What the two fields below the sign say. -/
theorem unpack_packComponents (s : Sign) (exponent : BitVec 11) (mantissa : BitVec 52) :
    unpack Format.binary64 (packComponents Format.binary64 s exponent mantissa) =
      if exponent.toNat = 2047 then if mantissa.toNat = 0 then .infinity s else .notANumber
      else if exponent.toNat = 0 then
        if none : mantissa.toNat = 0 then .zero s
        else .finite s mantissa.toNat (-1074) (Nat.pos_of_ne_zero none)
      else .finite s (2 ^ 52 + mantissa.toNat) (exponent.toNat - 1075) (Nat.add_pos_left (by decide) _) := by
  have top : exponent = -1#_ ↔ exponent.toNat = 2047 := BitVec.toNat_eq
  have bottom : exponent = 0#_ ↔ exponent.toNat = 0 := BitVec.toNat_eq
  have none : mantissa = 0#_ ↔ mantissa.toNat = 0 := BitVec.toNat_eq
  have shift : (Format.exponentBias Format.binary64 : Int) +
      (Format.mantissaBitsWithoutImplicit Format.binary64 : Nat) = 1075 := by decide
  unfold unpack
  simp only [unpackMantissa_packComponents, unpackExponent_packComponents,
    unpackSign_packComponents, Sign.ofBitVec_toBitVec, top, bottom, none, shift, toNat_one_append]
  by_cases least : exponent.toNat = 0
  · simp only [least]
    rfl
  · simp only [least, if_false]

section Finite
variable {m : Nat} {e : Int}

theorem pack_small (s : Sign) (positive : 0 < m) (low : -1074 ≤ e) (high : e ≤ 971) :
    pack Format.binary64 (.finite s m e positive) =
      if 2 ^ 52 ≤ m ∧ m < 2 ^ 53 then
        packComponents Format.binary64 s (BitVec.ofNat 11 (e + 1075).toNat) (BitVec.ofNat 52 m)
      else packComponents Format.binary64 s 0#11 (BitVec.ofNat 52 m) := by
  have shift : e + Format.exponentBias Format.binary64 +
      (Format.mantissaBitsWithoutImplicit Format.binary64 : Nat) = e + 1075 := by
    rw [Int.add_assoc]
    rfl
  have small : ¬ 2 ^ Format.exponentBits Format.binary64 ≤ (e + 1075).toNat + 1 := by
    change ¬ 2048 ≤ (e + 1075).toNat + 1
    omega
  have normal : m.log2 + 1 = Format.mantissaBits Format.binary64 ↔ 2 ^ 52 ≤ m ∧ m < 2 ^ 53 := by
    rw [← Nat.log2_eq_iff (by omega)]
    exact Nat.add_right_cancel_iff
  unfold pack
  simp only [shift, if_neg small, normal]

theorem pack_normal (s : Sign) (positive : 0 < m) (double : Canonical m e) (full : 2 ^ 52 ≤ m) :
    pack Format.binary64 (.finite s m e positive) =
      packComponents Format.binary64 s (BitVec.ofNat 11 (e + 1075).toNat) (BitVec.ofNat 52 m) := by
  rw [pack_small s positive double.low double.high, if_pos ⟨full, double.below⟩]

theorem pack_least (s : Sign) (positive : 0 < m) (less : m < 2 ^ 52) :
    pack Format.binary64 (.finite s m (-1074) positive) =
      packComponents Format.binary64 s 0#11 (BitVec.ofNat 52 m) := by
  rw [pack_small s positive (by decide) (by decide), if_neg (by omega)]

end Finite

theorem unpack_pack {u : UnpackedFloat} (double : OfDouble u) :
    unpack Format.binary64 (pack Format.binary64 u) = u := by
  cases u with
  | notANumber => rfl
  | infinity s => cases s <;> rfl
  | zero s => cases s <;> rfl
  | finite s m e positive =>
      have below := double.below
      have low := double.low
      have high := double.high
      have field : (BitVec.ofNat 52 m).toNat = m % 2 ^ 52 := BitVec.toNat_ofNat m 52
      by_cases normal : 2 ^ 52 ≤ m
      · have exponent : (BitVec.ofNat 11 (e + 1075).toNat).toNat = (e + 1075).toNat :=
          Nat.mod_eq_of_lt (by omega)
        rw [pack_normal s positive double normal, unpack_packComponents, exponent, if_neg (by omega),
          if_neg (by omega), UnpackedFloat.finite.injEq, field]
        exact ⟨rfl, by omega, by omega⟩
      · obtain rfl : e = -1074 := double.full.resolve_left normal
        have whole : (BitVec.ofNat 52 m).toNat = m := Nat.mod_eq_of_lt (by omega)
        rw [pack_least s positive (by omega), unpack_packComponents, BitVec.toNat_zero,
          if_neg (by decide), if_pos rfl, dif_neg (by omega), UnpackedFloat.finite.injEq]
        exact ⟨rfl, whole, rfl⟩

theorem unpack_ofDouble (b : BitVec Format.binary64.numBits) : OfDouble (unpack Format.binary64 b) := by
  obtain ⟨s, exponent, mantissa, rfl⟩ := exists_packComponents b
  have range : exponent.toNat < 2048 := exponent.isLt
  have range' : mantissa.toNat < 2 ^ 52 := mantissa.isLt
  rw [unpack_packComponents]
  split_ifs with top none bottom none
  · trivial
  · trivial
  · trivial
  · exact ⟨by omega, .inr rfl, by decide, by decide⟩
  · exact ⟨by omega, .inl (by omega), by omega, by omega⟩

/-! Doubles as they are used by the arithmetic. -/

theorem float_ext {x y : Float} (same : x.toModel.unpack = y.toModel.unpack) : x = y := by
  rw [← Float.toBits_inj, ← UInt64.toBitVec_inj]
  exact (unpack_inj_of_valid x.toModel.valid y.toModel.valid).mp same

theorem unpack_ofModel_pack {u : UnpackedFloat} (double : OfDouble u) :
    (Float.ofModel (Float.Model.pack u)).toModel.unpack = u := unpack_pack double

theorem unpack_neg (x : Float) : (-x).toModel.unpack = x.toModel.unpack.neg := by
  apply unpack_ofModel_pack
  have double : OfDouble x.toModel.unpack := unpack_ofDouble _
  cases u : x.toModel.unpack <;> rw [u] at double <;> exact double

theorem unpack_abs (x : Float) : x.abs.toModel.unpack = x.toModel.unpack.abs := by
  apply unpack_ofModel_pack
  have double : OfDouble x.toModel.unpack := unpack_ofDouble _
  cases u : x.toModel.unpack <;> rw [u] at double <;> exact double

theorem isFinite_neg (x : Float) : (-x).isFinite = x.isFinite := by
  have parts (y : Float) : y.isFinite = y.toModel.unpack.isFinite := rfl
  rw [parts, parts, unpack_neg]
  cases x.toModel.unpack <;> rfl

/-! The exact value of a double is read from the same fields. -/
namespace Decimal.Binary64

theorem ofFloat_eq (x : Float) : ofFloat x =
    match x.toModel.unpack with
    | .finite s m e _ => .finite (s == .negative) m e
    | .zero s => .finite (s == .negative) 0 (-1074)
    | .infinity s => .infinite (s == .negative)
    | .notANumber => .nan := by
  obtain ⟨s, exponent, mantissa, same⟩ := exists_packComponents x.toModel.toBits.toBitVec
  have range : exponent.toNat < 2048 := exponent.isLt
  have range' : mantissa.toNat < 2 ^ 52 := mantissa.isLt
  have bits : x.toBits.toNat =
      (s.toBitVec.toNat * 2 ^ 11 + exponent.toNat) * 2 ^ 52 + mantissa.toNat := by
    rw [← toNat_packComponents, same]
    rfl
  have signs : s.toBitVec.toNat = (s == .negative).toNat := by cases s <;> rfl
  have range'' : s.toBitVec.toNat < 2 := s.toBitVec.isLt
  have sign : x.toBits.toNat.testBit 63 = (s == .negative) := by
    have high : x.toBits.toNat / 2 ^ 63 = s.toBitVec.toNat := by omega
    rw [Nat.testBit_eq_decide_div_mod_eq, high, signs]
    cases s <;> rfl
  have field : x.toBits.toNat / hiddenBit % 0x800 = exponent.toNat := by
    rw [hiddenBit]
    omega
  have rest : x.toBits.toNat % hiddenBit = mantissa.toNat := by
    rw [hiddenBit]
    omega
  rw [Float.Model.unpack, ← same, unpack_packComponents, ofFloat, ofBits]
  simp only [sign, field, rest]
  split_ifs with top none bottom none
  · rfl
  · rfl
  · rw [none]
  · rfl
  · rfl

end Decimal.Binary64
end QCircuit
