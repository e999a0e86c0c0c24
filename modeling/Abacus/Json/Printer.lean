import Abacus.Decimal.Layout

/-!
# JSON, written

The compact form: no blanks, members in a fixed order. A text escapes the
quotation mark, the backslash and the control characters, and nothing
else. A number is written out around its point where it is at least
`10 ^ -5` and below `10 ^ 16`; outside it takes an exponent that always
has a sign. What is not finite is null.
-/

namespace Abacus

namespace Json

/-- Numbers in JSON; a tie of the digits goes to the even one. -/
def layout : Layout where
  tie := .even
  writtenOut := some (-5, 15)
  pointZero := true
  plusSign := true

/-- A number, or null for what is not finite. -/
def number (x : Binary64) : List Char :=
  if x.isFinite then layout.write x else ['n', 'u', 'l', 'l']

/-- A natural number. -/
def natural (n : Nat) : List Char := Nat.toDigits 10 n

/-- A truth value. -/
def boolean (b : Bool) : List Char := if b then "true".toList else "false".toList

/-- A digit of base sixteen, in small letters. -/
def hexDigit (n : Nat) : Char := Nat.digitChar (n % 16)

/-- A character inside a text. -/
def escape (c : Char) : List Char :=
  if c = '"' then ['\\', '"']
  else if c = '\\' then ['\\', '\\']
  else if c = '\x08' then ['\\', 'b']
  else if c = '\x0c' then ['\\', 'f']
  else if c = '\n' then ['\\', 'n']
  else if c = '\r' then ['\\', 'r']
  else if c = '\t' then ['\\', 't']
  else if c.toNat < 0x20 then
    ['\\', 'u', '0', '0', hexDigit (c.toNat / 16), hexDigit c.toNat]
  else [c]

/-- A text between quotation marks. -/
def text (s : List Char) : List Char := '"' :: (s.flatMap escape ++ ['"'])

/-- Written values between brackets. -/
def array (items : List (List Char)) : List Char :=
  '[' :: (List.intercalate [','] items ++ [']'])

/-- A member of an object: its name and its written value. -/
def member (name : String) (value : List Char) : List Char := text name.toList ++ ':' :: value

/-- Written members between braces. -/
def object (members : List (List Char)) : List Char :=
  '\x7b' :: (List.intercalate [','] members ++ ['\x7d'])

end Json

end Abacus
