import QCircuit.Proofs.Expr.IntegerLiteral
import QCircuit.Proofs.Expr.WrittenNumber
/-! Doubles in source text.

The text of a finite double has its digits, filled up with zeros, with a point where one is needed
and a minus in front if it is negative. The digits are read as the magnitude of the double, so the
text is a literal whose value is the double. -/
namespace QCircuit
open QCircuit.Expr QCircuit.Text QCircuit.Decimal

theorem numberValue_eq (whole places : List Char) : numberValue whole places =
    (⟨numeral (whole ++ places), -(places.length : Int)⟩ : Scientific).toFloat := by
  have below : decide (places ≠ []) = decide (-(places.length : Int) < 0) := by
    rw [decide_eq_decide, ← List.length_pos_iff]
    omega
  rw [numberValue, Scientific.toFloat, below, Int.natAbs_neg, Int.natAbs_natCast]

theorem longestToken?_positional {d : Scientific} (moderate : d.Moderate) :
    longestToken? (positional d) =
      some (.number d.toFloat, (positional d).length) := by
  obtain ⟨whole, places, writes, -, -, text⟩ := positional_writes d
  have digits := writes.digits
  rw [List.forall_mem_append] at digits
  have value : numberValue whole places = d.toFloat := by
    rw [numberValue_eq]
    exact (writes.moderate moderate).toFloat_congr moderate writes.value
  have stops : StopsAt isDigit [] := edge_nil.stopsAt nameChar_of_digit
  apply longestToken?_of_reads
  rw [text, ← value]
  by_cases none : places = []
  · rw [if_pos none, List.append_nil, none]
    exact .whole digits.1 writes.some stops edge_nil.2
  · rw [if_neg none]
    exact .places digits.1 digits.2 (.inl writes.some) stops

theorem plainText_eq {x : Float} (finite : x.isFinite = true) : ∃ negative : Bool,
    plainText x = String.ofList
      ((if negative then ['-'] else []) ++ positional (shortest .away x)) ∧
    (if negative then -x.abs else x.abs) = x := by
  have digits : ∀ d, plain.magnitude d = positional d := by
    intro d
    simp [Layout.magnitude, plain]
  obtain ⟨negative, text, value⟩ := Layout.text_eq plain finite
  rw [digits] at text
  exact ⟨negative, text, value⟩

/-- The text of a finite double is a literal with its value. -/
theorem exists_bare {x : Float} (finite : x.isFinite = true) :
    ∃ l : Literal, plainText x = l.bare ∧ l.value = x := by
  obtain ⟨read, shape⟩ := shortest_reads .away finite
  obtain ⟨negative, text, value⟩ := plainText_eq finite
  have reads : longestToken? (positional (shortest .away x)) =
      some (.number x.abs, (positional (shortest .away x)).length) := by
    rw [← read]
    rcases shape with zero | moderate
    · rw [zero]
      exact longestToken?_toDigits 0
    · exact longestToken?_positional moderate
  exact ⟨⟨negative, _, _, reads⟩, text, value⟩

end QCircuit
