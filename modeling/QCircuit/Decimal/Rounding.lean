/-! Rounding a quotient to an integer.

The result is the nearest integer. Where two are equally near, a tie goes to the even one or away
from zero. -/
namespace QCircuit.Decimal

inductive Tie where
  | toEven
  | away
deriving DecidableEq, Repr

-- Whether the quotient with this floor and remainder is rounded up.
def roundsUp (tie : Tie) (floor remainder denominator : Nat) : Bool :=
  if 2 * remainder < denominator then false
  else if denominator < 2 * remainder then true
  else match tie with
    | .toEven => floor % 2 == 1
    | .away => true

def roundDiv (tie : Tie) (numerator denominator : Nat) : Nat :=
  let floor := numerator / denominator
  if roundsUp tie floor (numerator % denominator) denominator then floor + 1 else floor

/-- Rounds `numerator / denominator * 10 ^ places`. -/
def roundScaled (tie : Tie) (numerator denominator : Nat) (places : Int) : Nat :=
  if 0 ≤ places then roundDiv tie (numerator * Nat.pow 10 places.natAbs) denominator
  else roundDiv tie numerator (denominator * Nat.pow 10 places.natAbs)

end QCircuit.Decimal
