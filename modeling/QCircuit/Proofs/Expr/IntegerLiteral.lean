import QCircuit.Proofs.Double.DecimalText
import QCircuit.Proofs.Expr.Arguments
/-! Integers as literals.

The decimal digits of an integer, with its sign, are read back as the double nearest to it, which is
the value that a counter of a loop has. -/
namespace QCircuit
open QCircuit.Expr QCircuit.Text

theorem word32?_toString {n : Nat} (small : n < wordLimit) : word32? (toString n).toList = some n := by
  have digits : (toString n).toList = Nat.toDigits 10 n := String.toList_ofList
  have all := isDigit_toDigits n
  have unsigned : unsigned? (Nat.toDigits 10 n) = natural? (Nat.toDigits 10 n) := by
    cases cs : Nat.toDigits 10 n with
    | nil => rfl
    | cons c rest =>
        rw [cs, List.forall_mem_cons] at all
        have first : c ≠ '+' := by
          rintro rfl
          cases all.1
        unfold unsigned?
        split
        · rename_i same
          exact absurd (List.cons.inj same).1 first
        · rfl
  have read : natural? (Nat.toDigits 10 n) = some n := by
    rw [natural?, if_pos ⟨Nat.toDigits_ne_nil, List.all_eq_true.mpr all⟩, numeral_toDigits]
  rw [word32?, digits, unsigned, read]
  simp [small]

theorem longestToken?_toDigits (n : Nat) : longestToken? (Nat.toDigits 10 n) =
    some (.number (numberValue (Nat.toDigits 10 n) []), (Nat.toDigits 10 n).length) :=
  longestToken?_of_reads (.whole (isDigit_toDigits n) Nat.toDigits_ne_nil
    (edge_nil.stopsAt nameChar_of_digit) edge_nil.2)

/-- An integer in decimal digits. -/
def Literal.ofInt (k : Int) : Literal where
  negative := decide (k < 0)
  digits := Nat.toDigits 10 k.natAbs
  magnitude := numberValue (Nat.toDigits 10 k.natAbs) []
  reads := longestToken?_toDigits k.natAbs

theorem numberValue_toDigits (n : Nat) : numberValue (Nat.toDigits 10 n) [] = Float.ofNat n := by
  rw [numberValue, List.append_nil, numeral_toDigits]
  rfl

theorem Literal.value_ofInt (k : Int) : (Literal.ofInt k).value = Float.ofInt k := by
  have magnitude : (Literal.ofInt k).magnitude = Float.ofNat k.natAbs :=
    numberValue_toDigits k.natAbs
  rw [value, magnitude]
  cases k with
  | ofNat n => rfl
  | negSucc n =>
      have signed : (Literal.ofInt (.negSucc n)).negative = true :=
        decide_eq_true (Int.negSucc_lt_zero n)
      rw [if_pos signed]
      rfl

theorem replaces_counter (env : Environment) (name : String) (k : Int) :
    Substitution.Replaces [(name, Literal.ofInt k)] (env.bind name (Float.ofInt k)) env := by
  have single : (List.map Prod.fst [(name, Literal.ofInt k)]).Nodup := by simp
  rw [← Literal.value_ofInt]
  exact Substitution.replaces_bindAll single env

end QCircuit
