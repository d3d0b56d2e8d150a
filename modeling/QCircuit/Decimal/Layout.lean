import QCircuit.Decimal.Shortest
/-! How numbers are written.

Positional text has an optional point; exponent text has one digit before the point. A layout
says which exponents are written positionally. Fixed text has a given number of places, rounded
from the exact value, a tie to the even digit. -/
namespace QCircuit.Decimal

def zeros (n : Nat) : List Char := List.replicate n '0'

/-- `digits * 10 ^ exponent` without an exponent part, and with no point if it is an integer. -/
def positional (d : Scientific) : List Char :=
  let digits := Nat.toDigits 10 d.digits
  if 0 ≤ d.exponent then digits ++ zeros d.exponent.natAbs
  else
    let places := d.exponent.natAbs
    if places < digits.length then
      digits.take (digits.length - places) ++ '.' :: digits.drop (digits.length - places)
    else '0' :: '.' :: zeros (places - digits.length) ++ digits

structure Layout where
  tie : Tie
  /-- Powers of ten of the first digit that are written positionally; `none` is all of them. -/
  plain? : Option (Int × Int)
  /-- Whether an integer is written with `.0`. -/
  keepsPoint : Bool
  /-- Whether a positive exponent is written with `+`. -/
  keepsPlus : Bool

def exponentText (layout : Layout) (d : Scientific) (power : Int) : List Char :=
  let digits := Nat.toDigits 10 d.digits
  let sign := if power < 0 then ['-'] else if layout.keepsPlus then ['+'] else []
  let fraction := if digits.length = 1 then [] else '.' :: digits.tail
  digits.take 1 ++ fraction ++ 'e' :: sign ++ Nat.toDigits 10 power.natAbs

def Layout.magnitude (layout : Layout) (d : Scientific) : List Char :=
  let power := d.exponent + (Nat.toDigits 10 d.digits).length - 1
  let plain := match layout.plain? with
    | none => true
    | some (low, high) => low ≤ power ∧ power ≤ high
  if plain then positional d ++ (if layout.keepsPoint ∧ 0 ≤ d.exponent then ['.', '0'] else [])
  else exponentText layout d power

-- The text of a double, in which a negative zero keeps its sign.
def Layout.text (layout : Layout) (x : Float) : String :=
  match Binary64.ofFloat x with
  | .nan => "NaN"
  | .infinite negative => if negative then "-inf" else "inf"
  | .finite negative _ _ =>
    String.ofList ((if negative then ['-'] else []) ++ layout.magnitude (shortest layout.tie x))

/-- Numbers in source text and messages: never an exponent, and no point in an integer. -/
def plain : Layout := ⟨.away, none, false, false⟩

def plainText (x : Float) : String := plain.text x

-- Digits with a point in front of the last `places` of them.
def pointed (digits : List Char) (places : Nat) : List Char :=
  let padded := zeros (places + 1 - digits.length) ++ digits
  padded.take (padded.length - places) ++
    (if places = 0 then [] else '.' :: padded.drop (padded.length - places))

inductive Plus where
  | hidden
  | shown
deriving DecidableEq, Repr

def signText (plus : Plus) (negative : Bool) : List Char :=
  if negative then ['-'] else match plus with
    | .hidden => []
    | .shown => ['+']

/-- Text with `places` digits after the point. A negative value that rounds to zero keeps its
sign. -/
def fixed (plus : Plus) (places : Nat) (x : Float) : String :=
  match Binary64.ofFloat x with
  | .nan => "NaN"
  | .infinite negative => String.ofList (signText plus negative ++ ['i', 'n', 'f'])
  | .finite negative mantissa exponent =>
    let (numerator, denominator) := Binary64.fraction mantissa exponent
    let digits := Nat.toDigits 10 (roundScaled .toEven numerator denominator places)
    String.ofList (signText plus negative ++ pointed digits places)

/-- Text with one digit before the point, `places` after it, and an exponent. -/
def scientific (places : Nat) (x : Float) : String :=
  match Binary64.ofFloat x with
  | .nan => "NaN"
  | .infinite negative => String.ofList (signText .hidden negative ++ ['i', 'n', 'f'])
  | .finite negative mantissa exponent =>
    let (numerator, denominator) := Binary64.fraction mantissa exponent
    let power := if mantissa = 0 then 0 else pointPosition numerator denominator - 1
    let rounded := roundScaled .toEven numerator denominator (places - power)
    -- Rounding may carry into one more digit, which is then a zero.
    let (digits, power) :=
      if rounded = Nat.pow 10 (places + 1) then (rounded / 10, power + 1) else (rounded, power)
    let sign := if power < 0 then ['-'] else []
    String.ofList (signText .hidden negative ++ pointed (Nat.toDigits 10 digits) places ++
      'e' :: sign ++ Nat.toDigits 10 power.natAbs)

end QCircuit.Decimal
