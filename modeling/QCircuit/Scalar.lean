/-! The arithmetic that circuits are run in.

A run needs a ring with halves, the root of one half, a cosine and a sine, and a report needs
division and an order besides. Doubles are one such arithmetic and the one that programs use. -/
namespace QCircuit

class Scalar (R : Type) where
  zero : R
  one : R
  /-- The positive number whose square is one half. -/
  rootHalf : R
  add : R → R → R
  sub : R → R → R
  mul : R → R → R
  div : R → R → R
  neg : R → R
  half : R → R
  cos : R → R
  sin : R → R
  less : R → R → Bool

instance : Scalar Float where
  zero := 0.0
  one := 1.0
  rootHalf := 0.7071067811865476
  add := (· + ·)
  sub := (· - ·)
  mul := (· * ·)
  div := (· / ·)
  neg := (- ·)
  half x := x / 2.0
  cos := Float.cos
  sin := Float.sin
  less x y := x < y

end QCircuit
