import Abacus.Decimal

/-!
# Shortest decimals — the fewest digits that read back

Every magnitude has a shortest decimal among those that round to it. The
search takes grids of 1, 2, … 17 digits in turn; on each it looks at the
two neighbours of the value and asks the rounding itself whether they read
back. The first grid with a hit wins, and of two hits the closer one. Two
neighbours that are equally close are told apart by the caller's `Tie`.

That a grid finer than 17 digits is never needed is not relied on: past it
stands the exact expansion, which reads back as well.
-/

namespace Abacus

/-- Where a value halfway between two equally short decimals goes. -/
inductive Tie
  | up
  | even
deriving DecidableEq

namespace Decimal

/-- Whether the value of `units` lies below `10 ^ k`. -/
def isBelow (units : Nat) (k : Int) : Bool :=
  units * Nat.pow 10 (-k).toNat < Binary64.unitsPerOne * Nat.pow 10 k.toNat

/-- The place of the leading digit: the `k` with
`10 ^ (k - 1) ≤ units / 2 ^ 1074 < 10 ^ k`. The binary places give a first
guess, since the logarithm of two is close to 0.30103; the place is at
most two above it. -/
def leadingPlace (units : Nat) : Int :=
  let guess := ((units.log2 : Int) - 1074) * 30103 / 100000
  if isBelow units guess then guess
  else if isBelow units (guess + 1) then guess + 1
  else guess + 2

/-- The last multiple of `10 ^ e` not above the value, as its factor. -/
def below (units : Nat) (e : Int) : Nat :=
  units * Nat.pow 10 (-e).toNat / (Binary64.unitsPerOne * Nat.pow 10 e.toNat)

/-- How twice the value compares with the sum of the neighbours `lo` and
`lo + 1` on the grid `10 ^ e`. -/
def compareMiddle (units lo : Nat) (e : Int) : Ordering :=
  compare (2 * units * Nat.pow 10 (-e).toNat)
    ((2 * lo + 1) * (Binary64.unitsPerOne * Nat.pow 10 e.toNat))

/-- The neighbour taken when both read back. -/
def closer (tie : Tie) (units lo : Nat) (e : Int) : Nat :=
  match compareMiddle units lo e, tie with
  | .lt, _ => lo
  | .gt, _ => lo + 1
  | .eq, .up => lo + 1
  | .eq, .even => lo + lo % 2

/-- The decimal of the grid `10 ^ e` that reads back as `m`, if one does. -/
def onGrid (tie : Tie) (m : Nat) (e : Int) : Option Decimal :=
  let lo := below (Binary64.units m) e
  if (⟨lo, e⟩ : Decimal).magnitude = m then
    if (⟨lo + 1, e⟩ : Decimal).magnitude = m then
      some ⟨closer tie (Binary64.units m) lo e, e⟩
    else some ⟨lo, e⟩
  else if (⟨lo + 1, e⟩ : Decimal).magnitude = m then some ⟨lo + 1, e⟩
  else none

/-- **The shortest decimal that rounds to the finite magnitude `m`**, with
no zeros at its end. -/
def shortest (tie : Tie) (m : Nat) : Decimal :=
  if m = 0 then ⟨0, 0⟩
  else
    let place := leadingPlace (Binary64.units m)
    let found := (List.range 17).findSome? fun i : Nat => onGrid tie m (place - (i + 1 : Nat))
    (found.getD (ofMagnitude m)).trim

end Decimal

end Abacus
