import Abacus.Text.Printable

/-!
# Quoted text — a text between quotation marks

Log records and messages show a text so that it fits one line and its ends
can be seen: in quotation marks, with a backslash before marks and
backslashes, a letter for the common controls, and the number in braces
for a character that does not show itself.
-/

namespace Abacus

namespace Quoted

/-- A character by its number. -/
def byNumber (c : Char) : List Char :=
  ['\\', 'u', '\x7b'] ++ Nat.toDigits 16 c.toNat ++ ['\x7d']

/-- A character between quotation marks. -/
def escape (c : Char) : List Char :=
  if c = '\x00' then ['\\', '0']
  else if c = '\t' then ['\\', 't']
  else if c = '\r' then ['\\', 'r']
  else if c = '\n' then ['\\', 'n']
  else if c = '"' then ['\\', '"']
  else if c = '\\' then ['\\', '\\']
  else if isPrintable c then [c]
  else byNumber c

end Quoted

/-- A text between quotation marks. -/
def quoted (text : List Char) : List Char := '"' :: (text.flatMap Quoted.escape ++ ['"'])

end Abacus
