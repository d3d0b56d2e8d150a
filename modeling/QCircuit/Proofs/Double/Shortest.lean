import QCircuit.Proofs.Double.Decimals
/-! The digits that are found for a double.

Seventeen digits place a value more closely than neighbouring doubles lie apart, so the search finds
digits at the latest there. It stops only at digits that are read as the double again, and the zeros
that are moved into the exponent do not change their value. -/
namespace QCircuit.Decimal

theorem roundDiv_near (tie : Tie) (numerator : Nat) {denominator : Nat} (some : 0 < denominator) :
    |(roundDiv tie numerator denominator : ℚ) - numerator / denominator| ≤ 1 / 2 := by
  have positive : (0 : ℚ) < denominator := by exact_mod_cast some
  have whole : (numerator : ℚ) / denominator =
      (numerator / denominator : Nat) + (numerator % denominator : Nat) / denominator := by
    have split : (numerator : ℚ) =
        denominator * (numerator / denominator : Nat) + (numerator % denominator : Nat) := by
      exact_mod_cast (Nat.div_add_mod numerator denominator).symm
    field_simp
    linarith
  have part : (0 : ℚ) ≤ (numerator % denominator : Nat) / (denominator : ℚ) := by positivity
  have part' : ((numerator % denominator : Nat) : ℚ) / denominator < 1 := by
    rw [div_lt_one positive]
    exact_mod_cast Nat.mod_lt numerator some
  rw [whole, roundDiv, abs_le]
  by_cases up : roundsUp tie (numerator / denominator) (numerator % denominator) denominator = true
  · have large : 1 / 2 ≤ ((numerator % denominator : Nat) : ℚ) / denominator := by
      rw [div_le_div_iff₀ two_pos positive]
      have twice : denominator ≤ 2 * (numerator % denominator) := by
        by_contra less
        rw [not_le] at less
        simp [roundsUp, less] at up
      exact_mod_cast (by omega : 1 * denominator ≤ numerator % denominator * 2)
    simp only [up, if_true, Nat.cast_add, Nat.cast_one]
    constructor <;> linarith
  · have little : ((numerator % denominator : Nat) : ℚ) / denominator ≤ 1 / 2 := by
      rw [div_le_div_iff₀ positive two_pos]
      have twice : 2 * (numerator % denominator) ≤ denominator := by
        by_contra more
        rw [not_le] at more
        simp [roundsUp, more, more.le] at up
      exact_mod_cast (by omega : numerator % denominator * 2 ≤ 1 * denominator)
    simp only [up, Bool.false_eq_true, if_false]
    constructor <;> linarith

section Position
variable {numerator denominator : Nat}

theorem pointPosition_le (some : 0 < numerator) (some' : 0 < denominator) :
    (10 : ℚ) ^ (pointPosition numerator denominator - 1) ≤ (numerator : ℚ) / denominator := by
  have positive : (0 : ℚ) < denominator := by exact_mod_cast some'
  rw [pointPosition]
  by_cases large : denominator ≤ numerator
  · obtain ⟨count, length⟩ : ∃ count, (Nat.toDigits 10 (numerator / denominator)).length = count + 1 :=
      ⟨_, (Nat.succ_pred_eq_of_pos Nat.length_toDigits_pos).symm⟩
    have power : 10 ^ count ≤ numerator / denominator := by
      by_cases single : count = 0
      · rw [single, pow_zero]
        exact Nat.div_pos large some'
      · rw [← not_lt, ← Nat.length_toDigits_le_iff (by decide) (Nat.pos_of_ne_zero single), length]
        omega
    have exponent : ((count + 1 : Nat) : Int) - 1 = count := by omega
    rw [if_pos large, length, exponent, zpow_natCast]
    calc (10 : ℚ) ^ count ≤ (numerator / denominator : Nat) := by exact_mod_cast power
      _ ≤ numerator / denominator := Nat.cast_div_le
  · have inverted : denominator / numerator < 10 ^ (Nat.toDigits 10 (denominator / numerator)).length :=
      (Nat.length_toDigits_le_iff (by decide) Nat.length_toDigits_pos).mp le_rfl
    rw [Nat.div_lt_iff_lt_mul some] at inverted
    have exponent : (1 - ((Nat.toDigits 10 (denominator / numerator)).length : Int)) - 1 =
        -(Nat.toDigits 10 (denominator / numerator)).length := by omega
    rw [if_neg large, exponent, zpow_neg, zpow_natCast, le_div_iff₀ positive, inv_mul_le_iff₀ (by positivity)]
    exact_mod_cast inverted.le

theorem pointPosition_small {k : Nat} (some : 0 < k) (small : numerator < 10 ^ k)
    (small' : denominator < 10 ^ k) : (pointPosition numerator denominator).natAbs ≤ k := by
  have short : ∀ {a b : Nat}, a < 10 ^ k → (Nat.toDigits 10 (a / b)).length ≤ k := fun less =>
    (Nat.length_toDigits_le_iff (by decide) some).mpr ((Nat.div_le_self _ _).trans_lt less)
  have length := @short _ denominator small
  have length' := @short _ numerator small'
  have positive : 0 < (Nat.toDigits 10 (denominator / numerator)).length := Nat.length_toDigits_pos
  rw [pointPosition]
  split <;> omega

end Position

-- The quotient that is rounded is the value in units of the grid.
theorem scaled_value (numerator : Nat) {denominator : Nat} (some : 0 < denominator) (exponent : Int) :
    ∃ top bottom : Nat, 0 < bottom ∧ (top : ℚ) / bottom = numerator / denominator / 10 ^ exponent ∧
      top = (if exponent < 0 then numerator * Nat.pow 10 exponent.natAbs else numerator) ∧
      bottom = (if exponent < 0 then denominator else denominator * Nat.pow 10 exponent.natAbs) := by
  refine ⟨_, _, ?_, ?_, rfl, rfl⟩
  · split
    · exact some
    · exact Nat.mul_pos some (Nat.pow_pos (by decide))
  · by_cases below : exponent < 0
    · obtain ⟨k, rfl⟩ : ∃ k : Nat, exponent = -k := ⟨exponent.natAbs, by omega⟩
      rw [if_pos below, if_pos below, Int.natAbs_neg, Int.natAbs_natCast, zpow_neg, zpow_natCast]
      push_cast [Nat.pow_eq]
      field_simp
    · obtain ⟨k, rfl⟩ := Int.eq_ofNat_of_zero_le (not_lt.mp below)
      rw [if_neg below, if_neg below, Int.natAbs_natCast, zpow_natCast]
      push_cast [Nat.pow_eq]
      field_simp

/-- The candidates are two neighbours of the value on a grid, the nearer one first. -/
theorem candidate?_eq (tie : Tie) (x : Float) (numerator : Nat) {denominator : Nat}
    (some : 0 < denominator) (count : Nat) {exponent : Int}
    (grid : exponent = pointPosition numerator denominator - count) :
    ∃ nearest other : Nat,
      |(nearest : ℚ) - numerator / denominator / 10 ^ exponent| ≤ 1 / 2 ∧
      (numerator / denominator / 10 ^ exponent : ℚ) < nearest + 1 ∧
      (numerator / denominator / 10 ^ exponent : ℚ) < other + 1 ∧
      candidate? tie x numerator denominator count =
        [⟨nearest, exponent⟩, ⟨other, exponent⟩].find? fun d : Scientific => d.toFloat == x := by
  obtain ⟨top, bottom, positive, value, top_eq, bottom_eq⟩ :=
    scaled_value numerator some exponent
  have near := roundDiv_near tie top positive
  have above : (top : ℚ) / bottom < (top / bottom : Nat) + 1 := by
    rw [div_lt_iff₀ (by exact_mod_cast positive)]
    exact_mod_cast Nat.lt_mul_of_div_lt (Nat.lt_succ_self (top / bottom)) positive
  rw [← value]
  unfold candidate?
  simp only [← grid, ← top_eq, ← bottom_eq]
  rw [roundDiv] at near
  by_cases up : roundsUp tie (top / bottom) (top % bottom) bottom = true
  · simp only [up, if_true] at near ⊢
    refine ⟨_, _, near, ?_, above, rfl⟩
    push_cast
    linarith
  · simp only [up, if_false, Bool.false_eq_true] at near ⊢
    refine ⟨_, _, near, above, ?_, rfl⟩
    push_cast
    linarith

/-- A positive double and its parts. -/
structure HasParts (x : Float) (m : Nat) (e : Int) : Prop where
  positive : 0 < m
  unpacked : x.toModel.unpack = .finite .positive m e positive

namespace HasParts
variable {x : Float} {m : Nat} {e : Int} (parts : HasParts x m e)
include parts

theorem canonical : Canonical m e := by
  have double : OfDouble x.toModel.unpack := unpack_ofDouble _
  rw [parts.unpacked] at double
  exact double

theorem beq_iff (y : Float) : (y == x) = true ↔ y = x := by
  have compared : (y == x) = y.toModel.unpack.beq x.toModel.unpack := rfl
  rw [compared, Float.Model.UnpackedFloat.beq_iff_ne_notANumber_and_eq, parts.unpacked]
  constructor
  · rintro ⟨_, _, same | ⟨_, zero⟩ | ⟨_, zero⟩⟩
    · exact float_ext (same.trans parts.unpacked.symm)
    · cases zero
    · cases zero
  · rintro rfl
    rw [parts.unpacked]
    simp

theorem toFloat_of_near {d : Scientific} (moderate : d.Moderate)
    (near : |d.value - m * 2 ^ e| ≤ m * 2 ^ e / (2 * 10 ^ 16)) : d.toFloat = x := by
  obtain ⟨u, rounds, read⟩ := moderate.rounds
  have canonical := parts.canonical
  have unit : (0 : ℚ) < 2 ^ e := zpow_pos two_pos e
  have below : (m : ℚ) < 2 ^ 53 := by exact_mod_cast canonical.below
  have small : (m : ℚ) * 2 ^ e / (2 * 10 ^ 16) < 1 / 2 * 2 ^ e := by
    rw [mul_div_right_comm]
    apply mul_lt_mul_of_pos_right _ unit
    linarith
  obtain ⟨low, high⟩ := abs_le.mp near
  have same : u = .finite .positive m e parts.positive := by
    apply canonical.rounds_near parts.positive rounds
    · linarith
    · linarith
    · intro power
      have smaller : (m : ℚ) * 2 ^ e / (2 * 10 ^ 16) < 1 / 4 * 2 ^ e := by
        rw [mul_div_right_comm, power]
        apply mul_lt_mul_of_pos_right _ unit
        norm_num
      linarith
  apply float_ext
  rw [read, same, parts.unpacked]
  exact unpack_ofModel_pack canonical

end HasParts

-- The first digit is at the left of the grid, so the value is that many units of it.
theorem grid_le {numerator denominator : Nat} (some : 0 < numerator) (some' : 0 < denominator)
    (count : Nat) : (10 : ℚ) ^ ((count : Int) - 1) ≤
      numerator / denominator / 10 ^ (pointPosition numerator denominator - count) := by
  rw [le_div_iff₀ (zpow_pos (by norm_num) _), ← zpow_add₀ (by norm_num)]
  have join : (count : Int) - 1 + (pointPosition numerator denominator - count) =
      pointPosition numerator denominator - 1 := by omega
  rw [join]
  exact pointPosition_le some some'

/-- The value of a positive double as a quotient of numbers that are not very large. -/
structure IsQuotient (x : Float) (m : Nat) (e : Int) (numerator denominator : Nat) : Prop
    extends HasParts x m e where
  value : (numerator : ℚ) / denominator = m * 2 ^ e
  some : 0 < numerator
  some' : 0 < denominator
  small : numerator < 10 ^ 400
  small' : denominator < 10 ^ 400

namespace IsQuotient
variable {tie : Tie} {x : Float} {m : Nat} {e : Int} {numerator denominator : Nat}
  (quotient : IsQuotient x m e numerator denominator)
include quotient

theorem pointPosition_bounded : (pointPosition numerator denominator).natAbs ≤ 400 :=
  pointPosition_small (by decide) quotient.small quotient.small'

-- A candidate that is found is read as the double.
theorem candidate?_sound {count : Nat} (low : 1 ≤ count) (high : count ≤ 17) {d : Scientific}
    (found : candidate? tie x numerator denominator count = Option.some d) :
    d.toFloat = x ∧ 0 < d.digits ∧ d.exponent.natAbs ≤ 417 := by
  obtain ⟨nearest, other, -, above, above', search⟩ :=
    candidate?_eq tie x numerator quotient.some' count rfl
  have large := grid_le quotient.some quotient.some' count
  have bounded := quotient.pointPosition_bounded
  have unit : (1 : ℚ) ≤ 10 ^ ((count : Int) - 1) := one_le_zpow₀ (by norm_num) (by omega)
  have positive : ∀ {n : Nat}, (numerator / denominator /
      10 ^ (pointPosition numerator denominator - count) : ℚ) < n + 1 → 0 < n := by
    intro n less
    have some : (0 : ℚ) < n := by linarith
    exact_mod_cast some
  rw [search] at found
  have accepted := List.find?_some found
  refine ⟨(quotient.beq_iff _).mp accepted, ?_⟩
  rcases List.mem_pair.mp (List.mem_of_find?_eq_some found) with rfl | rfl
  · exact ⟨positive above, by simp only; omega⟩
  · exact ⟨positive above', by simp only; omega⟩

-- With seventeen digits the nearer neighbour is read as the double.
theorem candidate?_seventeen (tie : Tie) :
    (candidate? tie x numerator denominator 17).isSome = true := by
  obtain ⟨nearest, other, near, above, -, search⟩ :=
    candidate?_eq tie x numerator quotient.some' 17 rfl
  have large := grid_le quotient.some quotient.some' 17
  have bounded := quotient.pointPosition_bounded
  rw [quotient.value] at near above large
  generalize grid : pointPosition numerator denominator - (17 : Nat) = exponent at *
  have unit : (0 : ℚ) < 10 ^ exponent := zpow_pos (by norm_num) _
  have sixteen : (10 : ℚ) ^ (((17 : Nat) : Int) - 1) = 10 ^ 16 := rfl
  rw [sixteen] at large
  have positive : (0 : ℚ) < nearest := by linarith
  have moderate : (⟨nearest, exponent⟩ : Scientific).Moderate :=
    ⟨by exact_mod_cast positive, by simp only; omega⟩
  have scaled : (nearest : ℚ) * 10 ^ exponent - m * 2 ^ e =
      (nearest - m * 2 ^ e / 10 ^ exponent) * 10 ^ exponent := by
    field_simp
  have close : |(⟨nearest, exponent⟩ : Scientific).value - m * 2 ^ e| ≤ m * 2 ^ e / (2 * 10 ^ 16) := by
    rw [le_div_iff₀ unit] at large
    rw [Scientific.value, scaled, abs_mul, abs_of_pos unit, le_div_iff₀ (by norm_num)]
    have half := mul_le_mul_of_nonneg_right near unit.le
    linarith
  rw [search, List.find?_isSome]
  exact ⟨_, List.mem_cons_self, (quotient.beq_iff _).mpr (quotient.toFloat_of_near moderate close)⟩

end IsQuotient

theorem search_eq {tie : Tie} {x : Float} {numerator denominator fuel count last : Nat}
    (low : count ≤ last) (high : last < count + fuel)
    (found : (candidate? tie x numerator denominator last).isSome = true) :
    ∃ c d, count ≤ c ∧ c ≤ last ∧ candidate? tie x numerator denominator c = some d ∧
      search tie x numerator denominator count fuel = some (d.strip c) := by
  induction fuel generalizing count with
  | zero => omega
  | succ fuel ih =>
      rw [search]
      cases first : candidate? tie x numerator denominator count with
      | some d => exact ⟨count, d, le_rfl, low, first, rfl⟩
      | none =>
          have later : count ≠ last := by
            rintro rfl
            rw [first] at found
            cases found
          obtain ⟨c, d, low', high', found', searched⟩ := @ih (count + 1) (by omega) (by omega)
          exact ⟨c, d, by omega, high', found', searched⟩

theorem Scientific.strip_spec (fuel : Nat) {d : Scientific} (positive : 0 < d.digits) :
    (d.strip fuel).value = d.value ∧ 0 < (d.strip fuel).digits ∧
      d.exponent ≤ (d.strip fuel).exponent ∧ (d.strip fuel).exponent ≤ d.exponent + fuel := by
  induction fuel generalizing d with
  | zero => simp [strip, positive]
  | succ fuel ih =>
      rw [strip]
      split
      · rename_i ends
        obtain ⟨count, whole⟩ : ∃ count, d.digits = 10 * count :=
          ⟨_, (Nat.mul_div_cancel' (Nat.dvd_of_mod_eq_zero ends.2)).symm⟩
        have shorter : 0 < d.digits / 10 := by omega
        obtain ⟨same, some, low, high⟩ := @ih ⟨d.digits / 10, d.exponent + 1⟩ shorter
        have moved : (⟨d.digits / 10, d.exponent + 1⟩ : Scientific).value = d.value := by
          rw [value, value, whole, Nat.mul_div_cancel_left _ (by decide), zpow_add_one₀ (by norm_num)]
          push_cast
          ring
        refine ⟨same.trans moved, some, ?_, ?_⟩
        · simp only at low
          omega
        · simp only at high
          push_cast
          omega
      · exact ⟨rfl, positive, le_rfl, by omega⟩

theorem two_pow_lt {j k : Nat} (some : j ≠ 0) (small : k ≤ 3 * j) : 2 ^ k < 10 ^ j := by
  calc 2 ^ k ≤ 2 ^ (3 * j) := Nat.pow_le_pow_right (by decide) small
    _ = (2 ^ 3) ^ j := Nat.pow_mul 2 3 j
    _ < 10 ^ j := Nat.pow_lt_pow_left (by decide) some

theorem HasParts.isQuotient {x : Float} {m : Nat} {e : Int} (parts : HasParts x m e) :
    IsQuotient x m e (Binary64.fraction m e).1 (Binary64.fraction m e).2 := by
  have below := parts.canonical.below
  have low := parts.canonical.low
  have high := parts.canonical.high
  by_cases up : 0 ≤ e
  · obtain ⟨k, rfl⟩ := Int.eq_ofNat_of_zero_le up
    have fraction : Binary64.fraction m k = (m * 2 ^ k, 1) := if_pos up
    have size : m * 2 ^ k < 10 ^ 400 := by
      calc m * 2 ^ k < 2 ^ 53 * 2 ^ k := Nat.mul_lt_mul_of_pos_right below (Nat.two_pow_pos k)
        _ = 2 ^ (53 + k) := (Nat.pow_add 2 53 k).symm
        _ < 10 ^ 400 := two_pow_lt (by decide) (by omega)
    have unit : 2 ^ 0 < 10 ^ 400 := two_pow_lt (by decide) (Nat.zero_le _)
    rw [fraction]
    refine ⟨parts, ?_, Nat.mul_pos parts.positive (Nat.two_pow_pos k), Nat.one_pos, size, unit⟩
    push_cast
    rw [div_one, zpow_natCast]
  · obtain ⟨k, rfl⟩ : ∃ k : Nat, e = -k := ⟨e.natAbs, by omega⟩
    have fraction : Binary64.fraction m (-k) = (m, 2 ^ k) := by
      rw [Binary64.fraction, if_neg up, Int.natAbs_neg, Int.natAbs_natCast]
      rfl
    rw [fraction]
    refine ⟨parts, ?_, parts.positive, Nat.two_pow_pos k,
      below.trans (two_pow_lt (by decide) (by decide)), two_pow_lt (by decide) (by omega)⟩
    push_cast
    rw [zpow_neg, zpow_natCast, div_eq_mul_inv]

/-- The digits that are found for a finite double are read as its magnitude. -/
theorem shortest_reads (tie : Tie) {x : Float} (finite : x.isFinite = true) :
    (shortest tie x).toFloat = x.abs ∧ (shortest tie x = ⟨0, 0⟩ ∨ (shortest tie x).Moderate) := by
  have magnitude := unpack_abs x
  have parts : x.isFinite = x.toModel.unpack.isFinite := rfl
  rw [parts] at finite
  cases u : x.toModel.unpack with
  | zero s =>
      have none : shortest tie x = ⟨0, 0⟩ := by
        rw [shortest, Binary64.ofFloat_eq, u]
        rfl
      have zero : (⟨0, 0⟩ : Scientific).toFloat.toModel.unpack = .zero .positive := by rfl
      refine ⟨?_, .inl none⟩
      apply float_ext
      rw [none, zero, magnitude, u]
      rfl
  | finite s m e positive =>
      have quotient : IsQuotient x.abs m e (Binary64.fraction m e).1 (Binary64.fraction m e).2 := by
        apply HasParts.isQuotient
        exact ⟨positive, by rw [magnitude, u]; rfl⟩
      obtain ⟨c, d, low, high, found, searched⟩ :=
        search_eq (by decide : 1 ≤ 17) (by decide : 17 < 1 + 17)
          (quotient.candidate?_seventeen tie)
      obtain ⟨read, some, exponent⟩ := quotient.candidate?_sound low high found
      obtain ⟨same, some', lower, upper⟩ := Scientific.strip_spec c some
      have result : shortest tie x = d.strip c := by
        obtain ⟨k, rfl⟩ : ∃ k, m = k + 1 := ⟨m - 1, by omega⟩
        rw [shortest, Binary64.ofFloat_eq, u]
        simp only [searched, Option.getD_some]
      have moderate : d.Moderate := ⟨some, by omega⟩
      have moderate' : (d.strip c).Moderate := ⟨some', by omega⟩
      rw [result, ← read]
      exact ⟨moderate'.toFloat_congr moderate same, .inr moderate'⟩
  | infinity s => simp [u, Float.Model.UnpackedFloat.isFinite] at finite
  | notANumber => simp [u, Float.Model.UnpackedFloat.isFinite] at finite

end QCircuit.Decimal
