import Abacus.Binary64

/-!
# Decimal — a whole number times a power of ten

A decimal is its digits as one number and a power of ten. The file says
which magnitude is nearest to a decimal (`magnitude`) and which decimal a
finite magnitude is exactly (`ofMagnitude`): every double has a finite
decimal expansion, since two divides ten.
-/

namespace Abacus

/-- The value `digits * 10 ^ exponent`. -/
structure Decimal where
  digits : Nat
  exponent : Int
deriving DecidableEq

namespace Decimal

/-- The magnitude nearest to a decimal. -/
def magnitude (d : Decimal) : Nat :=
  Binary64.roundRatio (d.digits * Nat.pow 10 d.exponent.toNat) (Nat.pow 10 (-d.exponent).toNat)

/-- Zeros at the end of the digits moved into the exponent. -/
def trim (d : Decimal) : Decimal :=
  if h : 0 < d.digits ∧ d.digits % 10 = 0 then
    trim ⟨d.digits / 10, d.exponent + 1⟩
  else d
termination_by d.digits
decreasing_by exact Nat.div_lt_self h.1 (by decide)

/-- The exact value of a finite magnitude: a unit is `5 ^ 1074` of the
last of 1074 decimal places. -/
def ofMagnitude (m : Nat) : Decimal := ⟨Binary64.units m * Nat.pow 5 1074, -1074⟩

end Decimal

end Abacus
