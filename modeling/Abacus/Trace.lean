import Abacus.Log.Level
import Abacus.Text.Quoted
import Abacus.Tokenizer

/-!
# Traces — what a scan did, step by step

A scan announces itself, then each recognizer it tries, and then what came
of it: a token with its place, or noise with its place. The trace is read
off the same list of placed lexemes as the tokens are.
-/

namespace Abacus

/-- Numbers in records always show that they are doubles: a whole number
keeps `.0`, and from `10 ^ 16` on and below `10 ^ -4` there is an
exponent. -/
def Token.recordLayout : Layout where
  tie := .up
  writtenOut := some (-4, 15)
  pointZero := true
  plusSign := false

/-- A token in records: its kind, and its value or name. -/
def Token.record : Token → List Char
  | .number v => "Number(".toList ++ Token.recordLayout.write v ++ [')']
  | .operator op => "Operator(".toList ++ op.name.toList ++ [')']
  | .parenthesis p => "Parenthesis(".toList ++ p.name.toList ++ [')']

/-- What came of reading a lexeme. -/
inductive ScanEvent
  | token (t : Token) (offset : Nat)
  | noise (text : List Char) (offset : Nat)
deriving DecidableEq

namespace ScanEvent

/-- The event of a placed lexeme. -/
def ofPlaced (p : Placed) : ScanEvent :=
  match p.lexeme.token with
  | some t => .token t p.start.offset
  | none => .noise p.lexeme.text p.start.offset

/-- A token is told at the lowest level, noise one above. -/
def level : ScanEvent → Level
  | .token .. => .trace
  | .noise .. => .debug

/-- The words of an event. -/
def message : ScanEvent → List Char
  | .token t offset => "token ".toList ++ t.record ++ " at ".toList ++ Nat.toDigits 10 offset
  | .noise text offset =>
    "skipping unrecognized input ".toList ++ quoted text ++ " at ".toList ++
      Nat.toDigits 10 offset

end ScanEvent

/-- An entry of a trace: something begins, or something happened. -/
inductive TraceEntry
  | started (name : String)
  | happened (event : ScanEvent)
deriving DecidableEq

namespace Placed

/-- What reading one lexeme leaves in the trace. -/
def trace (p : Placed) : List TraceEntry :=
  (Lexeme.Alternative.announced Lexeme.Alternative.inOrder p.ahead).map .started ++
    [.happened (.ofPlaced p)]

end Placed

/-- **The trace of a scan.** -/
def trace (input : List Char) : List TraceEntry :=
  .started "tokenize" :: (Tokenizer.new.scan input).flatMap Placed.trace

end Abacus
