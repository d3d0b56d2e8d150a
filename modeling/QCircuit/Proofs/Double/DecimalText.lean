import QCircuit.Decimal.Layout
import QCircuit.Proofs.Double.Shortest
import QCircuit.Text.Numeral
/-! Decimals in digits.

A decimal is written with its digits, filled up with zeros, and with a point where one is needed.
Read as a numeral with places, the text has the value of the decimal. Text of a finite double is
that of its magnitude, with a minus in front if the double is negative. -/
namespace QCircuit
open QCircuit.Text QCircuit.Decimal

theorem numeral_toDigits (n : Nat) : numeral (Nat.toDigits 10 n) = n := by
  have same : numeral (Nat.toDigits 10 n) = Nat.ofDigitChars 10 (Nat.toDigits 10 n) 0 := rfl
  rw [same, Nat.ofDigitChars_ten_toDigits]

theorem isDigit_toDigits (n : Nat) : ∀ c ∈ Nat.toDigits 10 n, isDigit c = true := by
  intro c inside
  have digit : c.isDigit = true := Nat.isDigit_of_mem_toDigits (by decide) (by decide) inside
  rw [Char.isDigit, Bool.and_eq_true, decide_eq_true_eq, decide_eq_true_eq] at digit
  rw [isDigit, Bool.and_eq_true, decide_eq_true_eq, decide_eq_true_eq]
  exact digit

-- A positive number has no zero in front.
theorem toDigits_leads {n : Nat} (positive : 0 < n) : (Nat.toDigits 10 n).head? ≠ some '0' := by
  induction n using Nat.strong_induction_on with
  | _ n ih =>
      by_cases single : n < 10
      · rw [Nat.toDigits_of_lt_base single]
        interval_cases n <;> decide
      · rw [Nat.toDigits_of_base_le (by decide) (Nat.le_of_not_lt single), List.head?_append]
        have shorter := ih (n / 10) (by omega) (by omega)
        cases first : (Nat.toDigits 10 (n / 10)).head? with
        | none => exact absurd (List.head?_eq_none_iff.mp first) Nat.toDigits_ne_nil
        | some c => rwa [first] at shorter

theorem numeralFrom_append (start : Nat) (first second : List Char) :
    numeralFrom start (first ++ second) = numeralFrom (numeralFrom start first) second :=
  List.foldl_append

theorem numeralFrom_zeros (start n : Nat) :
    numeralFrom start (zeros n) = start * 10 ^ n := by
  induction n with
  | zero => rw [pow_zero, mul_one]; rfl
  | succ n ih =>
      have last : numeralFrom (start * 10 ^ n) ['0'] = 10 * (start * 10 ^ n) := rfl
      rw [zeros, List.replicate_succ', numeralFrom_append, ← zeros, ih, last]
      ring

theorem isDigit_zeros (n : Nat) : ∀ c ∈ zeros n, isDigit c = true := by
  intro c inside
  obtain rfl := List.eq_of_mem_replicate inside
  rfl

/-- Digits, or digits around a point, that write a decimal. -/
structure WritesDecimal (whole places : List Char) (d : Scientific) : Prop where
  digits : ∀ c ∈ whole ++ places, isDigit c = true
  some : whole ≠ []
  short : places.length ≤ d.exponent.natAbs
  value : (⟨numeral (whole ++ places), -(places.length : Int)⟩ : Scientific).value = d.value

section Positional
variable {d : Scientific}

-- An integer is filled up with zeros.
theorem writes_filled {k : Nat} (exponent : d.exponent = k) :
    WritesDecimal (Nat.toDigits 10 d.digits ++ zeros k) [] d where
  digits := by
    simp only [List.append_nil, List.mem_append]
    rintro c (own | filled)
    · exact isDigit_toDigits d.digits c own
    · exact isDigit_zeros k c filled
  some := List.append_ne_nil_of_left_ne_nil Nat.toDigits_ne_nil _
  short := Nat.zero_le _
  value := by
    rw [Scientific.value, Scientific.value, exponent, List.append_nil, numeral, numeralFrom_append,
      numeralFrom_zeros, ← numeral, numeral_toDigits]
    simp

-- The point is between two digits.
theorem writes_split {k : Nat} (exponent : d.exponent = -k)
    (short : k < (Nat.toDigits 10 d.digits).length) :
    WritesDecimal ((Nat.toDigits 10 d.digits).take ((Nat.toDigits 10 d.digits).length - k))
      ((Nat.toDigits 10 d.digits).drop ((Nat.toDigits 10 d.digits).length - k)) d where
  digits := by
    rw [List.take_append_drop]
    exact isDigit_toDigits d.digits
  some := by
    rw [← List.length_pos_iff, List.length_take]
    omega
  short := by
    rw [List.length_drop]
    omega
  value := by
    rw [List.take_append_drop, numeral_toDigits, List.length_drop, Scientific.value,
      Scientific.value, exponent]
    congr 2
    simp only
    omega

-- The first digit is behind the point.
theorem writes_padded {k : Nat} (exponent : d.exponent = -k)
    (long : (Nat.toDigits 10 d.digits).length ≤ k) :
    WritesDecimal ['0'] (zeros (k - (Nat.toDigits 10 d.digits).length) ++ Nat.toDigits 10 d.digits) d := by
  have length : (zeros (k - (Nat.toDigits 10 d.digits).length) ++
      Nat.toDigits 10 d.digits).length = k := by
    rw [List.length_append, zeros, List.length_replicate]
    omega
  have first : numeralFrom 0 ['0'] = 0 := rfl
  have number : numeral (['0'] ++ (zeros (k - (Nat.toDigits 10 d.digits).length) ++
      Nat.toDigits 10 d.digits)) = d.digits := by
    rw [numeral, numeralFrom_append, numeralFrom_append, first, numeralFrom_zeros, zero_mul,
      ← numeral, numeral_toDigits]
  refine ⟨?_, by decide, by omega, ?_⟩
  · simp only [List.mem_append, List.mem_singleton]
    rintro c (rfl | filled | own)
    · rfl
    · exact isDigit_zeros _ c filled
    · exact isDigit_toDigits d.digits c own
  · rw [Scientific.value, Scientific.value, length, number, exponent]

/-- A numeral has no zero in front, unless it is a zero alone. -/
def Leads (whole : List Char) : Prop := whole.head? = some '0' → whole = ['0']

theorem positional_writes (d : Scientific) : ∃ whole places, WritesDecimal whole places d ∧
    (0 < d.digits → Leads whole) ∧ (places = [] ↔ 0 ≤ d.exponent) ∧
    positional d = whole ++ if places = [] then [] else '.' :: places := by
  rw [positional]
  by_cases up : 0 ≤ d.exponent
  · obtain ⟨k, exponent⟩ := Int.eq_ofNat_of_zero_le up
    refine ⟨_, _, writes_filled exponent, fun positive first => ?_, by simp [exponent],
      by simp [exponent]⟩
    rw [List.head?_append_of_ne_nil _ Nat.toDigits_ne_nil] at first
    exact absurd first (toDigits_leads positive)
  · obtain ⟨k, exponent⟩ : ∃ k : Nat, d.exponent = -k := ⟨d.exponent.natAbs, by omega⟩
    have amount : d.exponent.natAbs = k := by omega
    by_cases short : k < (Nat.toDigits 10 d.digits).length
    · have behind : (Nat.toDigits 10 d.digits).drop ((Nat.toDigits 10 d.digits).length - k) ≠ [] := by
        rw [← List.length_pos_iff, List.length_drop]
        omega
      refine ⟨_, _, writes_split exponent short, fun positive first => ?_, by simp only [behind, up], ?_⟩
      · rw [List.head?_take, if_neg (by omega)] at first
        exact absurd first (toDigits_leads positive)
      · simp only [up, if_false, amount, short, if_true, behind]
    · have behind : zeros (k - (Nat.toDigits 10 d.digits).length) ++ Nat.toDigits 10 d.digits ≠ [] :=
        List.append_ne_nil_of_right_ne_nil _ Nat.toDigits_ne_nil
      refine ⟨_, _, writes_padded exponent (Nat.le_of_not_lt short), fun _ _ => rfl,
        by simp only [behind, up], ?_⟩
      simp only [up, if_false, amount, short, behind]
      rfl

end Positional

-- No decimal of the value zero is moderate.
theorem Decimal.Scientific.Moderate.of_value {d d' : Scientific} (moderate : d.Moderate)
    (same : d'.value = d.value) (small : d'.exponent.natAbs ≤ 2048) : d'.Moderate := by
  have positive : d.value ≠ 0 := by
    have some : (d.digits : ℚ) ≠ 0 := by exact_mod_cast moderate.positive.ne'
    exact mul_ne_zero some (zpow_ne_zero _ (by norm_num))
  refine ⟨Nat.pos_of_ne_zero fun none => positive ?_, small⟩
  rw [← same, Scientific.value, none, Nat.cast_zero, zero_mul]

theorem WritesDecimal.moderate {whole places : List Char} {d : Scientific}
    (writes : WritesDecimal whole places d) (moderate : d.Moderate) :
    (⟨numeral (whole ++ places), -(places.length : Int)⟩ : Scientific).Moderate := by
  have small := moderate.small
  have short := writes.short
  exact moderate.of_value writes.value (by simp only; omega)

namespace Decimal

/-- The text of a finite double is that of its magnitude behind its sign. -/
theorem Layout.text_eq (layout : Layout) {x : Float} (finite : x.isFinite = true) :
    ∃ negative : Bool, layout.text x = String.ofList
      ((if negative then ['-'] else []) ++ layout.magnitude (shortest layout.tie x)) ∧
    (if negative then -x.abs else x.abs) = x := by
  have parts : x.isFinite = x.toModel.unpack.isFinite := rfl
  have magnitude := unpack_abs x
  rw [parts] at finite
  rw [Layout.text, Binary64.ofFloat_eq]
  cases u : x.toModel.unpack with
  | infinity s | notANumber => simp [u, Float.Model.UnpackedFloat.isFinite] at finite
  | finite s m e positive | zero s =>
      refine ⟨s == .negative, rfl, ?_⟩
      apply float_ext
      rw [u] at magnitude
      cases s with
      | positive => exact magnitude.trans u.symm
      | negative =>
          have opposite := unpack_neg x.abs
          rw [magnitude] at opposite
          exact opposite.trans u.symm

end Decimal
end QCircuit
