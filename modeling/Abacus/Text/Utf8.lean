/-!
# UTF-8 — texts as bytes

A character is one to four bytes, and only in its shortest form. Reading
takes one character after another and refuses the whole at the first
byte that begins none.
-/

namespace Abacus

namespace Utf8

/-- The bytes of a text. -/
def encode (text : List Char) : List UInt8 := text.flatMap String.utf8EncodeChar

/-- How many bytes a text has. -/
def size (text : List Char) : Nat := (text.map Char.utf8Size).foldr (· + ·) 0

/-- A text cut behind its first `n` bytes, unless that is within a character
or behind the end. -/
def split? : Nat → List Char → Option (List Char × List Char)
  | 0, cs => some ([], cs)
  | _ + 1, [] => none
  | n + 1, c :: cs =>
    if c.utf8Size ≤ n + 1 then
      (split? (n + 1 - c.utf8Size) cs).map fun parts => (c :: parts.1, parts.2)
    else none

/-- The six bits a byte adds that continues a character. -/
def continuation? (b : UInt8) : Option Nat :=
  if b.toNat / 0x40 = 2 then some (b.toNat % 0x40) else none

/-- The code point `n` as a character, if it is one and needs no fewer
bytes than were used: it is at least `least`. -/
def scalar? (least n : Nat) : Option Char :=
  if least ≤ n ∧ n.isValidChar then some (Char.ofNat n) else none

/-- The character that begins with the byte `a`, and how many of the bytes
after `a` belong to it. -/
def next? (a : UInt8) (rest : List UInt8) : Option (Char × Nat) :=
  if a.toNat < 0x80 then some (Char.ofNat a.toNat, 0)
  else if a.toNat / 0x20 = 6 then
    match rest with
    | b :: _ => do
      let c ← scalar? 0x80 (a.toNat % 0x20 * 0x40 + (← continuation? b))
      pure (c, 1)
    | _ => none
  else if a.toNat / 0x10 = 14 then
    match rest with
    | b :: c :: _ => do
      let ch ← scalar? 0x800
        ((a.toNat % 0x10 * 0x40 + (← continuation? b)) * 0x40 + (← continuation? c))
      pure (ch, 2)
    | _ => none
  else if a.toNat / 0x08 = 30 then
    match rest with
    | b :: c :: d :: _ => do
      let ch ← scalar? 0x10000
        (((a.toNat % 0x08 * 0x40 + (← continuation? b)) * 0x40 + (← continuation? c)) * 0x40 +
          (← continuation? d))
      pure (ch, 3)
    | _ => none
  else none

/-- The longest text that some bytes begin with, and the bytes from the
first that begins no character. -/
def front : List UInt8 → List Char × List UInt8
  | [] => ([], [])
  | a :: rest =>
    match next? a rest with
    | none => ([], a :: rest)
    | some (c, more) =>
      let after := front (rest.drop more)
      (c :: after.1, after.2)
termination_by bytes => bytes.length
decreasing_by simp only [List.length_cons, List.length_drop]; omega

/-- **The text that some bytes are**, if they are one. -/
def decode? (bytes : List UInt8) : Option (List Char) :=
  let read := front bytes
  if read.2.isEmpty then some read.1 else none

end Utf8

end Abacus
