import Abacus.Pattern.CharSet

/-!
# Looks — places in a text

A pattern can ask for a place between two characters, at the start or end of
the text, of a line or of a word. Whether it is there is told from the two
neighbours alone, for some looks from the one behind it (`holdsBehind`).
-/

namespace Abacus

/-- A place between two characters or at an end of the text. Lines end at a
newline; in the wide sense a carriage return ends them too, and the two
together end them once. -/
inductive Look
  | textStart
  | textEnd
  | lineStart (wide : Bool)
  | lineEnd (wide : Bool)
  | wordBoundary
  | noWordBoundary
  | wordStart
  | wordEnd
deriving DecidableEq

namespace Look

/-- A neighbour that belongs to a word. -/
def isInWord (c : Option Char) : Bool := c.any CharSet.word.contains

/-- **Whether a place is the one looked for**, told from its neighbours. An
end of the text has none on that side. -/
def holds (l : Look) (before after : Option Char) : Bool :=
  match l with
  | .textStart => before.isNone
  | .textEnd => after.isNone
  | .lineStart false => before.isNone || before == some '\n'
  | .lineStart true =>
    before.isNone || before == some '\n' || (before == some '\r' && after != some '\n')
  | .lineEnd false => after.isNone || after == some '\n'
  | .lineEnd true =>
    after.isNone || after == some '\r' || (after == some '\n' && before != some '\r')
  | .wordBoundary => isInWord before != isInWord after
  | .noWordBoundary => isInWord before == isInWord after
  | .wordStart => !isInWord before && isInWord after
  | .wordEnd => isInWord before && !isInWord after

/-- Whether a place is known to be the one looked for before the character
after it is seen. -/
def holdsBehind (l : Look) (before : Option Char) : Bool :=
  match l with
  | .textStart => before.isNone
  | .lineStart _ => before.isNone || before == some '\n'
  | _ => false

end Look

end Abacus
