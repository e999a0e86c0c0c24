import Abacus.Json.Reader

/-!
# Numbers in documents

A number without point and exponent that fits 64 bits is a whole number.
Any other is a double, and not always the nearest one: the digits are read
as one whole number as long as it fits 64 bits, what comes after them only
counts for the exponent, and the power of ten is then one multiplication
or division of doubles (`scale`), or several where the power itself is no
double. Each of these rounds.
-/

namespace Abacus

namespace Json

/-- A number as it is read. -/
inductive Numeric
  | natural (n : Nat)
  | negative (n : Nat)
  | float (x : Binary64)
deriving DecidableEq

/-- What a number is found to be where something else was wanted. -/
def Numeric.found : Numeric → Found
  | .natural n => .natural n
  | .negative n => .negative n
  | .float x => .float x

/-- The largest whole number that digits are collected into. -/
def largestNatural : Nat := Nat.pow 2 64 - 1

/-- The largest exponent that is counted. -/
def largestExponent : Nat := Nat.pow 2 31 - 1

/-- Digits added to a whole number while it stays within a limit, and the
digits that are left. -/
def collect (limit : Nat) : Nat → List UInt8 → Nat × List UInt8
  | n, [] => (n, [])
  | n, d :: ds =>
    let m := n * 10 + (d.toNat - 48)
    if m ≤ limit then collect limit m ds else (n, d :: ds)

/-- The largest power of ten that is a double. -/
def largestPower : Nat := 308

/-- A power of ten as a double. -/
def power (k : Nat) : Binary64 := Binary64.ofNat (Nat.pow 10 k)

/-- **A double times a power of ten**, rounded at each step, or nothing
where it is too large. -/
def scale (x : Binary64) (e : Int) : Option Binary64 :=
  if e.natAbs ≤ largestPower then
    if 0 ≤ e then
      let y := x.product (power e.natAbs)
      if y.isInfinite then none else some y
    else some (x.quotient (power e.natAbs))
  else if x.isZero then some x
  else if 0 ≤ e then none
  else scale (x.quotient (power largestPower)) (e + largestPower)
termination_by e.natAbs
decreasing_by simp only [largestPower] at *; omega

/-- A double under a sign. -/
def signed (positive : Bool) (x : Binary64) : Binary64 := if positive then x else x.negate

/-- The double of a sign, digits and an exponent. -/
def float (positive : Bool) (digits : Nat) (e : Int) : Reader Binary64 :=
  match scale (Binary64.ofNat digits) e with
  | some x => pure (signed positive x)
  | none => Reader.fail .numberOutOfRange

/-- The sign of an exponent: whether it is not a minus. -/
def exponentSign : Reader Bool := do
  let b ← Reader.peek
  if b = some (byte '+') then
    Reader.skip
    pure true
  else if b = some (byte '-') then
    Reader.skip
    pure false
  else pure true

/-- An exponent, from its letter on, over digits that already have one. An
exponent too large to be counted leaves zero, or is refused at the digit
that makes it so. -/
def exponent (positive : Bool) (digits : Nat) (e : Int) : Reader Binary64 := do
  Reader.skip
  let up ← exponentSign
  match ← Reader.next with
  | none => Reader.fail .endInValue
  | some d =>
    if !isDigit d then Reader.fail .invalidNumber
    else
      let ds ← Reader.upcoming isDigit
      let (n, left) := collect largestExponent (d.toNat - 48) ds
      if left.isEmpty then
        Reader.take ds.length
        let _ ← Reader.peek
        float positive digits (if up then e + n else e - n)
      else if digits ≠ 0 ∧ up then
        Reader.take (ds.length - left.length + 1)
        Reader.fail .numberOutOfRange
      else
        Reader.take ds.length
        let _ ← Reader.peek
        pure (signed positive .zero)

/-- Whether a byte begins an exponent. -/
def isExponentMark (b : Option UInt8) : Bool := b == some (byte 'e') || b == some (byte 'E')

/-- A fraction, from its point on. Each digit collected lowers the
exponent by one. -/
def fraction (positive : Bool) (digits : Nat) (e : Int) : Reader Binary64 := do
  Reader.skip
  let ds ← Reader.takeWhile isDigit
  if ds.isEmpty then
    match ← Reader.peek with
    | none => Reader.failAtNext .endInValue
    | some _ => Reader.failAtNext .invalidNumber
  else
    let (n, left) := collect largestNatural digits ds
    let e := e - (ds.length - left.length : Nat)
    if isExponentMark (← Reader.peek) then exponent positive n e else float positive n e

/-- A whole number that fits 64 bits, under its sign. There is no whole
number below `-2 ^ 63`, and minus zero is a double. -/
def wholeNumber (positive : Bool) (n : Nat) : Numeric :=
  if positive then .natural n
  else if 0 < n ∧ n ≤ Nat.pow 2 63 then .negative n
  else .float (Binary64.ofNat n).negate

/-- The digits after the first. A zero stands alone. -/
def moreDigits (first : UInt8) : Reader (List UInt8) := do
  if first = byte '0' then
    match ← Reader.peek with
    | none => pure []
    | some b => if isDigit b then Reader.failAtNext .invalidNumber else pure []
  else Reader.takeWhile isDigit

/-- **A number**, from after its sign. -/
def numeric (positive : Bool) : Reader Numeric := do
  match ← Reader.next with
  | none => Reader.fail .endInValue
  | some d =>
    if !isDigit d then Reader.fail .invalidNumber
    else
      let ds ← moreDigits d
      let (n, left) := collect largestNatural (d.toNat - 48) ds
      let b ← Reader.peek
      if b = some (byte '.') then Numeric.float <$> fraction positive n left.length
      else if isExponentMark b then Numeric.float <$> exponent positive n left.length
      else if left.isEmpty then pure (wholeNumber positive n)
      else Numeric.float <$> float positive n left.length

end Json

end Abacus
