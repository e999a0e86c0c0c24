/-!
# Glyphs — the alphabet of calculator expressions

Digits and the point make numbers, four glyphs are operators and two are
parentheses. Every other character is noise. The multiplication glyph is
the small letter `x`. Only ASCII digits are digits.
-/

namespace Abacus

/-- The binary operators, in the order in which they are tried. -/
inductive Operator
  | add
  | subtract
  | multiply
  | divide
deriving DecidableEq

/-- The two ends of a group. -/
inductive Parenthesis
  | opening
  | closing
deriving DecidableEq

namespace Operator

/-- All operators in order. -/
def all : List Operator := [.add, .subtract, .multiply, .divide]

/-- The character that stands for an operator. -/
def glyph : Operator → Char
  | .add => '+'
  | .subtract => '-'
  | .multiply => 'x'
  | .divide => '/'

/-- The name of an operator in records. -/
def name : Operator → String
  | .add => "Add"
  | .subtract => "Subtract"
  | .multiply => "Multiply"
  | .divide => "Divide"

/-- The operator whose glyph is the whole of a text. -/
def ofGlyph? (text : List Char) : Option Operator := all.find? fun o => text == [o.glyph]

/-- The operator with a name. -/
def ofName? (name : String) : Option Operator := all.find? fun o => name == o.name

end Operator

namespace Parenthesis

/-- Both parentheses in order. -/
def all : List Parenthesis := [.opening, .closing]

/-- The character that stands for a parenthesis. -/
def glyph : Parenthesis → Char
  | .opening => '('
  | .closing => ')'

/-- The name of a parenthesis in records. -/
def name : Parenthesis → String
  | .opening => "Opening"
  | .closing => "Closing"

/-- The parenthesis whose glyph is the whole of a text. -/
def ofGlyph? (text : List Char) : Option Parenthesis := all.find? fun p => text == [p.glyph]

/-- The parenthesis with a name. -/
def ofName? (name : String) : Option Parenthesis := all.find? fun p => name == p.name

end Parenthesis

namespace Glyph

/-- Characters that may stand inside a number. -/
def isNumeric (c : Char) : Bool := c.isDigit || c == '.'

/-- Characters that are a token by themselves. -/
def isSymbol (c : Char) : Bool := ['+', '-', 'x', '/', '(', ')'].contains c

/-- Characters of the alphabet. The others are noise wherever they stand. -/
def isRecognized (c : Char) : Bool := isNumeric c || isSymbol c

end Glyph

end Abacus
