import Abacus.Pattern
import Abacus.Pattern.Flags
import Abacus.Text.Utf8

/-!
# Escapes — what a backslash begins

A backslash takes the meaning from a mark, gives one to a letter, or
writes a character by its number. What needs tables of all scripts is
refused, and without `unicode` a letter names ASCII characters only.
-/

namespace Abacus

namespace Pattern

/-- A character of a pattern. One of two hexadecimal digits is a byte when
the pattern is not of `unicode`. -/
structure Literal where
  char : Char
  asByte : Bool

/-- What an escape stands for. -/
inductive Escape
  | literal (l : Literal)
  | look (l : Look)
  | set (s : CharSet)

namespace Literal

/-- A character by itself. -/
def plain (c : Char) : Literal := ⟨c, false⟩

/-- Whether a literal is ASCII. -/
def isAscii (l : Literal) : Bool := l.char.toNat < 0x80

end Literal

namespace Escape

/-- The value of a hexadecimal digit. -/
def hexValue? (c : Char) : Option Nat :=
  if c.isDigit then some (c.toNat - '0'.toNat)
  else if 'a' ≤ c ∧ c ≤ 'f' then some (c.toNat - 'a'.toNat + 10)
  else if 'A' ≤ c ∧ c ≤ 'F' then some (c.toNat - 'A'.toNat + 10)
  else none

/-- A number of some hexadecimal digits, between which blanks may stand,
behind digits of the value `n`. -/
def hexNumber? (f : Flags) : Nat → Nat → List Char → Option (Nat × List Char)
  | 0, n, cs => some (n, cs)
  | _ + 1, _, [] => none
  | k + 1, n, c :: cs =>
    match hexValue? c with
    | none => none
    | some d => hexNumber? f k (16 * n + d) (f.blanks cs)

/-- A character by its number, of so many digits. -/
def byNumber? (f : Flags) (digits : Nat) (cs : List Char) : Option (Escape × List Char) :=
  match hexNumber? f digits 0 (f.blanks cs) with
  | none => none
  | some (n, rest) => (Utf8.scalar? 0 n).map fun c => (.literal ⟨c, digits = 2⟩, rest)

/-- Marks whose meaning a backslash takes away. -/
def isMark (c : Char) : Bool :=
  c.toNat < 0x80 && !c.isAlphanum && c != '<' && c != '>'

/-- Control characters by their letters. -/
def control? (c : Char) : Option Char :=
  match c with
  | 'a' => some '\x07'
  | 'f' => some '\x0c'
  | 't' => some '\t'
  | 'n' => some '\n'
  | 'r' => some '\r'
  | 'v' => some '\x0b'
  | _ => none

/-- Places by their letters, with whether they are about words. -/
def look? (c : Char) : Option (Look × Bool) :=
  match c with
  | 'A' => some (.textStart, false)
  | 'z' => some (.textEnd, false)
  | 'b' => some (.wordBoundary, true)
  | 'B' => some (.noWordBoundary, true)
  | '<' => some (.wordStart, true)
  | '>' => some (.wordEnd, true)
  | _ => none

/-- Sets by their letters. -/
def set? (c : Char) : Option CharSet :=
  match c with
  | 'd' => some .digit
  | 's' => some .space
  | 'w' => some .word
  | _ => none

/-- **The escape that a text begins with**, behind its backslash, and the
rest of the text. -/
def read? (f : Flags) : List Char → Option (Escape × List Char)
  | [] => none
  | c :: cs =>
    if c = 'x' then byNumber? f 2 cs
    else if c = 'u' then byNumber? f 4 cs
    else if c = 'U' then byNumber? f 8 cs
    else if isMark c then some (.literal (.plain c), cs)
    else
      match control? c, look? c, set? c with
      | some d, _, _ => some (.literal (.plain d), cs)
      | _, some (l, ofWords), _ => if ofWords && f.unicode then none else some (.look l, cs)
      | _, _, some s => if f.unicode then none else some (.set s, cs)
      | _, _, _ => none

end Escape

end Pattern

end Abacus
