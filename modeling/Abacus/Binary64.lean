/-!
# Binary64 — doubles as a sign and a magnitude

A double is kept as the two parts of its bit pattern: the sign bit, and
the exponent and fraction fields read together as one number, its
magnitude. Magnitudes are ordered as the values they stand for, the
infinity is the first magnitude that is not finite, and every finite
magnitude is a whole number of units of `2 ^ -1074` (`units`). So all
arithmetic here is on natural numbers and is exact.

The one rounding rule is `roundRatio`: a quotient goes to the nearest
magnitude, a half to the even one, and what is too large goes to the
infinity. Reading decimals, products and quotients are all it, applied to
an exact quotient.

Powers are `Nat.pow` by name, since `^` is another function wherever
monoids are imported.
-/

namespace Abacus

/-- A double: the sign bit, and the exponent and fraction fields as one
number. -/
structure Binary64 where
  negative : Bool
  magnitude : Nat
  bound : magnitude < Nat.pow 2 63
deriving DecidableEq

namespace Binary64

/-- The magnitude of the infinities. Smaller ones are finite, larger ones
are no number. -/
def infiniteMagnitude : Nat := 2047 * Nat.pow 2 52

theorem infiniteMagnitude_lt : infiniteMagnitude < Nat.pow 2 63 := by decide

/-- The double of the given sign with the given magnitude, cut off at the
infinity. -/
def ofMagnitude (negative : Bool) (m : Nat) : Binary64 where
  negative
  magnitude := min infiniteMagnitude m
  bound := Nat.lt_of_le_of_lt (Nat.min_le_left _ _) infiniteMagnitude_lt

/-- Positive zero. -/
def zero : Binary64 := ofMagnitude false 0

/-- Finite doubles are those below the infinity. -/
def isFinite (x : Binary64) : Bool := x.magnitude < infiniteMagnitude

/-- Past the infinity lie the patterns that are no number. -/
def isNaN (x : Binary64) : Bool := infiniteMagnitude < x.magnitude

/-- The infinity of either sign. -/
def isInfinite (x : Binary64) : Bool := x.magnitude == infiniteMagnitude

/-- Zero of either sign. -/
def isZero (x : Binary64) : Bool := x.magnitude == 0

/-- The 64-bit pattern as a number, the sign bit on top. -/
def bits (x : Binary64) : Nat := (if x.negative then Nat.pow 2 63 else 0) + x.magnitude

/-- The same magnitude under the other sign. -/
def negate (x : Binary64) : Binary64 := { x with negative := !x.negative }

/-- **Equality of values**: the two zeros are equal, and what is no number
equals nothing. -/
def sameValue (x y : Binary64) : Bool :=
  !x.isNaN && !y.isNaN &&
    ((x.isZero && y.isZero) || (x.negative == y.negative && x.magnitude == y.magnitude))

/-! ## Values -/

/-- A finite magnitude in units of `2 ^ -1074`: below `2 ^ 52` the fraction
itself, above it the fraction with its leading bit, moved up by the
exponent field less one. -/
def units (m : Nat) : Nat :=
  if m < Nat.pow 2 52 then m
  else (Nat.pow 2 52 + m % Nat.pow 2 52) * Nat.pow 2 (m / Nat.pow 2 52 - 1)

/-- How many units make one. -/
def unitsPerOne : Nat := Nat.pow 2 1074

/-! ## Rounding -/

/-- The whole number nearest to `n / d`; a half goes to the even
neighbour. -/
def nearestEven (n d : Nat) : Nat :=
  let q := n / d
  let r := n % d
  if 2 * r < d then q
  else if d < 2 * r then q + 1
  else q + q % 2

/-- How many binary places a magnitude holding `n` units drops: a
significand keeps 53. -/
def droppedPlaces (n : Nat) : Nat := n.log2 - 52

/-- **The magnitude nearest to `n / d`**, a half going to the even one. The
quotient in units is cut to 53 binary places; a carry out of the
significand runs into the exponent field, where it belongs. -/
def roundRatio (n d : Nat) : Nat :=
  let scaled := n * unitsPerOne
  let j := droppedPlaces (scaled / d)
  min infiniteMagnitude (j * Nat.pow 2 52 + nearestEven scaled (d * Nat.pow 2 j))

/-- The double nearest to `n / d`, with the given sign. -/
def ofRatio (negative : Bool) (n d : Nat) : Binary64 := ofMagnitude negative (roundRatio n d)

/-- The double nearest to a natural number. -/
def ofNat (n : Nat) : Binary64 := ofRatio false n 1

/-! ## Products and quotients of finite values -/

/-- The product of two finite doubles, rounded once. -/
def product (x y : Binary64) : Binary64 :=
  ofRatio (x.negative != y.negative) (units x.magnitude * units y.magnitude)
    (unitsPerOne * unitsPerOne)

/-- The quotient of a finite double by a finite one that is not zero,
rounded once: the units cancel. -/
def quotient (x y : Binary64) : Binary64 :=
  ofRatio (x.negative != y.negative) (units x.magnitude) (units y.magnitude)

end Binary64

end Abacus
