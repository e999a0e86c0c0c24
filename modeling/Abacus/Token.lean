import Abacus.Decimal.Layout
import Abacus.Glyph

/-!
# Tokens — numbers, operators and parentheses

A token is a number with its value or one of the symbols. Its text is
what an expression would hold: the glyph of a symbol, or the shortest
digits of a number, written out without an exponent.
-/

namespace Abacus

/-- A token of an expression. -/
inductive Token
  | number (value : Binary64)
  | operator (op : Operator)
  | parenthesis (p : Parenthesis)
deriving DecidableEq

namespace Token

/-- Number tokens. -/
def isNumber : Token → Bool
  | .number _ => true
  | _ => false

/-- The value of a number token. -/
def value? : Token → Option Binary64
  | .number v => some v
  | _ => none

/-- Numbers in expressions are written out around the point, a whole
number without one; a tie of the digits goes up. -/
def numberLayout : Layout where
  tie := .up
  writtenOut := none
  pointZero := false
  plusSign := false

/-- The text of a token. -/
def text : Token → List Char
  | .number v => numberLayout.write v
  | .operator op => [op.glyph]
  | .parenthesis p => [p.glyph]

/-- Equal tokens: symbols by what they are, numbers by their value. -/
def sameValue : Token → Token → Bool
  | .number v, .number w => v.sameValue w
  | .operator o, .operator p => o == p
  | .parenthesis p, .parenthesis q => p == q
  | _, _ => false

end Token

/-- Texts with one space between neighbours. -/
def joinSpaced (texts : List (List Char)) : List Char := List.intercalate [' '] texts

/-- **Tokens as an expression**: their texts with single spaces between. -/
def formatTokens (tokens : List Token) : List Char := joinSpaced (tokens.map Token.text)

end Abacus
