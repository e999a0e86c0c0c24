import Abacus.Recognizer
import Abacus.Token

/-!
# Lexemes — the pieces of an expression

A number is a run of digits with at most one point in it, and at least one
digit. A symbol is one glyph. What none of these takes is noise: a run of
characters outside the alphabet, or else one character, which is then a
point with no digit for it. The four recognizers are tried in this order,
over and over, and cut any text into lexemes.
-/

namespace Abacus

/-- A piece of an expression: its text, and the token it is. Noise is
none. -/
structure Lexeme where
  text : List Char
  token : Option Token
deriving DecidableEq

namespace Numeral

/-- The digits of a number's text without its point. -/
def digits (text : List Char) : List Char := text.filter Char.isDigit

/-- The digits behind the point. -/
def places (text : List Char) : Nat := (text.dropWhile Char.isDigit).length - 1

/-- **The value of a number's text**: the double nearest to the decimal,
read as a whole number over a power of ten. -/
def value (text : List Char) : Binary64 :=
  Binary64.ofRatio false (Nat.ofDigitChars 10 (digits text) 0) (Nat.pow 10 (places text))

end Numeral

namespace Lexeme

open Recognizer

/-- The text of a number: digits with an optional point and more digits, or
a point and digits. -/
def numberRun : Recognizer Unit :=
  labelled "number run" <| oneOf
    [ (runSome Char.isDigit .digit).followedBy
        (optionally ((char '.').followedBy (run Char.isDigit))),
      (char '.').followedBy (runSome Char.isDigit .digit) ]

/-- A number token. -/
def number : Recognizer Token :=
  labelled "number" (numberRun.valued fun text => .number (Numeral.value text))

/-- An operator token. -/
def operator : Recognizer Token :=
  labelled "operator" <| oneOf <| Operator.all.map fun o =>
    (char o.glyph).valued fun _ => .operator o

/-- A parenthesis token. -/
def parenthesis : Recognizer Token :=
  labelled "parenthesis" <| oneOf <| Parenthesis.all.map fun p =>
    (char p.glyph).valued fun _ => .parenthesis p

/-- Noise: a run outside the alphabet, or any one character. -/
def noise : Recognizer Unit :=
  labelled "noise" <| oneOf
    [runSome (fun c => !Glyph.isRecognized c) .run, anyChar]

/-- A recognizer of tokens, as one of lexemes. -/
def ofToken (r : Recognizer Token) : Recognizer Lexeme := fun input =>
  match r input with
  | .error t => .error t
  | .ok m => .ok ⟨m.text, ⟨m.text, some m.value⟩, m.rest⟩

/-- A recognizer of noise, as one of lexemes. -/
def ofNoise (r : Recognizer Unit) : Recognizer Lexeme := r.valued fun text => ⟨text, none⟩

/-- A way to read a lexeme, with the names under which its trying is
announced. -/
structure Alternative where
  announces : List String
  recognize : Recognizer Lexeme

namespace Alternative

/-- Trying a number, which is also trying its text. -/
def number : Alternative := ⟨["parse_number", "recognize_run"], ofToken Lexeme.number⟩

/-- Trying an operator. -/
def operator : Alternative := ⟨["parse_operator"], ofToken Lexeme.operator⟩

/-- Trying a parenthesis. -/
def parenthesis : Alternative := ⟨["parse_parenthesis"], ofToken Lexeme.parenthesis⟩

/-- Trying noise. -/
def noise : Alternative := ⟨["parse_noise"], ofNoise Lexeme.noise⟩

/-- The alternatives in the order in which they are tried. -/
def inOrder : List Alternative := [number, operator, parenthesis, noise]

/-- What is announced while alternatives are tried on a text: the names of
each up to the first that succeeds. -/
def announced : List Alternative → List Char → List String
  | [], _ => []
  | a :: as, input =>
    match a.recognize input with
    | .ok _ => a.announces
    | .error _ => a.announces ++ announced as input

end Alternative

/-- The next lexeme under a list of alternatives. -/
def next (alternatives : List Alternative) : Recognizer Lexeme :=
  labelled "lexeme" (oneOf (alternatives.map Alternative.recognize))

/-- **The lexemes of a text**, each with the text from its start on. -/
def cut (alternatives : List Alternative) (input : List Char) : List (List Char × Lexeme) :=
  (repeated (next alternatives) input).map fun (ahead, m) => (ahead, m.value)

end Lexeme

end Abacus
