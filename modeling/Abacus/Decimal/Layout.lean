import Abacus.Decimal.Shortest

/-!
# Layouts — how a double is written

A layout is the record of a written form's decisions: which way a tie of
the digits goes, for which sizes the digits are written out around a
point, whether a whole number keeps `.0`, and how an exponent is marked.
`Layout.write` is the one function that reads it, so the written forms of
the library differ in nothing but their records.
-/

namespace Abacus

/-- The decisions of a written form of doubles. -/
structure Layout where
  /-- Which of two equally close shortest decimals is written. -/
  tie : Tie
  /-- The leading digit's power of ten from `low` up to `high` is written
  out; outside, the number takes an exponent. `none` writes out all. -/
  writtenOut : Option (Int × Int)
  /-- A whole number that is written out ends in `.0`. -/
  pointZero : Bool
  /-- An exponent that is not negative carries a plus sign. -/
  plusSign : Bool

namespace Layout

/-- The digits around a point, `place` of them before it. Zeros fill what
the digits do not reach. -/
def spread (pointZero : Bool) (ds : List Char) (place : Int) : List Char :=
  if place ≤ 0 then '0' :: '.' :: (List.replicate (-place).toNat '0' ++ ds)
  else
    let whole := ds.take place.toNat
    let fraction := ds.drop place.toNat
    let zeros := List.replicate (place.toNat - ds.length) '0'
    whole ++ zeros ++
      (if fraction.isEmpty then (if pointZero then ['.', '0'] else []) else '.' :: fraction)

/-- One digit, the others behind a point, and the power of ten. -/
def withExponent (plusSign : Bool) (ds : List Char) (power : Int) : List Char :=
  let sign := if power < 0 then ['-'] else if plusSign then ['+'] else []
  let fraction := ds.drop 1
  ds.take 1 ++ (if fraction.isEmpty then [] else '.' :: fraction) ++
    'e' :: (sign ++ Nat.toDigits 10 power.natAbs)

/-- A decimal in a layout. Zero is written as if its digit stood right
before the point. -/
def writeDecimal (l : Layout) (d : Decimal) : List Char :=
  let ds := Nat.toDigits 10 d.digits
  let place : Int := ds.length + d.exponent
  match l.writtenOut with
  | none => spread l.pointZero ds place
  | some (low, high) =>
    if d.digits = 0 ∨ (low ≤ place - 1 ∧ place - 1 ≤ high) then spread l.pointZero ds place
    else withExponent l.plusSign ds (place - 1)

/-- **A double in a layout**: the sign, also of zero, and the shortest
decimal that reads back. What is not finite has a word. -/
def write (l : Layout) (x : Binary64) : List Char :=
  if x.isNaN then ['N', 'a', 'N']
  else
    (if x.negative then ['-'] else []) ++
      (if x.isInfinite then ['i', 'n', 'f']
       else l.writeDecimal (Decimal.shortest l.tie x.magnitude))

end Layout

end Abacus
