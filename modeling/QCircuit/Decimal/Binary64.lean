/-! Doubles as exact values.

A finite double is a sign and `mantissa * 2 ^ exponent`. The fields are read from the 64 bits, so
that every question about the value becomes one about natural numbers. -/
namespace QCircuit.Decimal

inductive Binary64 where
  | finite (negative : Bool) (mantissa : Nat) (exponent : Int)
  | infinite (negative : Bool)
  | nan
deriving DecidableEq, Repr

namespace Binary64

/-- The bit that a normal mantissa has above its 52 written bits. -/
def hiddenBit : Nat := 0x10000000000000

def ofBits (bits : Nat) : Binary64 :=
  let negative := bits.testBit 63
  let biased : Nat := bits / hiddenBit % 0x800
  let fraction := bits % hiddenBit
  if biased = 2047 then
    if fraction = 0 then .infinite negative else .nan
  else if biased = 0 then .finite negative fraction (-1074)
  else .finite negative (hiddenBit + fraction) ((biased : Int) - 1075)

def ofFloat (x : Float) : Binary64 := ofBits x.toBits.toNat

def negative : Binary64 → Bool
  | finite negative _ _ => negative
  | infinite negative => negative
  | nan => false

/-- The integer that a value is, if it is one. Both zeros are the integer zero. -/
def integer? : Binary64 → Option Int
  | finite negative mantissa exponent =>
    let scale := Nat.pow 2 exponent.natAbs
    if 0 ≤ exponent then some (signed negative (mantissa * scale))
    else if mantissa % scale = 0 then some (signed negative (mantissa / scale))
    else none
  | _ => none
where
  signed (negative : Bool) (n : Nat) : Int := if negative then -n else n

/-- Numerator and denominator of the magnitude `mantissa * 2 ^ exponent`. -/
def fraction (mantissa : Nat) (exponent : Int) : Nat × Nat :=
  if 0 ≤ exponent then (mantissa * Nat.pow 2 exponent.natAbs, 1)
  else (mantissa, Nat.pow 2 exponent.natAbs)

end Binary64

/-- The integer that a double is, if it is one. -/
def integer? (x : Float) : Option Int := (Binary64.ofFloat x).integer?

end QCircuit.Decimal
