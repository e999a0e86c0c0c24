import Abacus.Text.Utf8

/-!
# Lines of input

Input is cut after each newline, before anything is known of its
characters. A piece is a line if it is UTF-8; the newline and one carriage
return before it are not part of the line. Reading ends at the first
piece that is none.
-/

namespace Abacus

namespace Input

/-- Bytes cut after each newline. A last piece without one counts unless
it is empty. -/
def pieces : List UInt8 → List (List UInt8)
  | [] => []
  | b :: bs =>
    if b = 10 then [b] :: pieces bs
    else
      match pieces bs with
      | [] => [[b]]
      | p :: ps => (b :: p) :: ps

/-- A piece's text without its line end. -/
def withoutEnd (text : List Char) : List Char :=
  match text.reverse with
  | '\n' :: '\r' :: cs => cs.reverse
  | '\n' :: cs => cs.reverse
  | _ => text

/-- The line that a piece is, if it is UTF-8. -/
def line? (piece : List UInt8) : Option (List Char) := (Utf8.decode? piece).map withoutEnd

/-- The lines up to the first piece that is none, and whether there was no
such piece. -/
def linesOf : List (List UInt8) → List (List Char) × Bool
  | [] => ([], true)
  | p :: ps =>
    match line? p with
    | none => ([], false)
    | some l => (l :: (linesOf ps).1, (linesOf ps).2)

/-- **The lines of some input**, and whether all of it could be read. -/
def lines (bytes : List UInt8) : List (List Char) × Bool := linesOf (pieces bytes)

end Input

end Abacus
