import Abacus.Pattern.CharSet
import Abacus.Text.Alphanumeric

/-!
# Flags — how a written pattern is to be taken

Seven letters set or clear the flags, for a group or for the rest of one.
Without tables for the cases and words of all scripts there is no ignoring
of case among all characters, so what asks for both is refused; without
`unicode` a pattern speaks of ASCII alone.
-/

namespace Abacus

namespace Pattern

/-- How a written pattern is to be taken. -/
structure Flags where
  ignoreCase : Bool
  manyLines : Bool
  dotTakesAll : Bool
  reluctant : Bool
  unicode : Bool
  wideLines : Bool
  spaced : Bool
deriving DecidableEq

namespace Flags

/-- The flags that hold when nothing is said. -/
def usual : Flags := ⟨false, false, false, false, true, false, false⟩

/-- The flags with the one of a letter set or cleared. -/
def put? (f : Flags) (letter : Char) (on : Bool) : Option Flags :=
  match letter with
  | 'i' => some { f with ignoreCase := on }
  | 'm' => some { f with manyLines := on }
  | 's' => some { f with dotTakesAll := on }
  | 'U' => some { f with reluctant := on }
  | 'u' => some { f with unicode := on }
  | 'R' => some { f with wideLines := on }
  | 'x' => some { f with spaced := on }
  | _ => none

/-- Flags as they are written between a question mark and a closing `)` or
`:`, with the letters and the text from the closing mark on. Each letter
stands once, and so does a dash, behind which letters clear. -/
def read? (f : Flags) (sofar : List Char) : List Char → Option (Flags × List Char × List Char)
  | [] => none
  | c :: cs =>
    if c = ')' || c = ':' then
      if sofar.head? = some '-' then none else some (f, sofar, c :: cs)
    else if sofar.contains c then none
    else if c = '-' then read? f (c :: sofar) cs
    else
      match f.put? c (!sofar.contains '-') with
      | none => none
      | some f => read? f (c :: sofar) cs

/-- A text without the white space and the comments it begins with. A
comment goes from a hash mark to the end of the line. -/
def pastBlanks (inComment : Bool) : List Char → List Char
  | [] => []
  | c :: cs =>
    if inComment then pastBlanks (c != '\n') cs
    else if isWhiteSpace c then pastBlanks false cs
    else if c = '#' then pastBlanks true cs
    else c :: cs

theorem length_pastBlanks_le (inComment : Bool) (text : List Char) :
    (pastBlanks inComment text).length ≤ text.length := by
  induction text generalizing inComment with
  | nil => exact Nat.le_refl _
  | cons c cs ih =>
    rw [pastBlanks]
    split
    · exact Nat.le_succ_of_le (ih _)
    · split
      · exact Nat.le_succ_of_le (ih _)
      · split
        · exact Nat.le_succ_of_le (ih _)
        · exact Nat.le_refl _

/-- What is left of a text where blanks may stand, which are only passed
over in a spaced pattern. -/
def blanks (f : Flags) (text : List Char) : List Char :=
  if f.spaced then pastBlanks false text else text

theorem length_blanks_le (f : Flags) (text : List Char) :
    (f.blanks text).length ≤ text.length := by
  rw [blanks]
  split
  · exact length_pastBlanks_le false text
  · exact Nat.le_refl _

/-- The character behind the blanks of a text, when a look at it decides
whether a dash is a range. The look passes over white space and one hash
mark, not over a comment. -/
def peekPast (f : Flags) (text : List Char) : Option Char :=
  if f.spaced then
    match text.dropWhile isWhiteSpace with
    | '#' :: cs => (cs.dropWhile isWhiteSpace).head?
    | cs => cs.head?
  else text.head?

/-- A set as the flags have it. Ignoring case is for ASCII alone. -/
def fold? (f : Flags) (s : CharSet) : Option CharSet :=
  if !f.ignoreCase then some s
  else if f.unicode then none
  else some s.foldCase

end Flags

end Pattern

end Abacus
