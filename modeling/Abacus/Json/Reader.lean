import Abacus.Json.Fault

/-!
# Readers of documents

A document is bytes, taken from the front. It is held as a whole, or it
arrives byte by byte and is given back nothing: a reader that looks at the
next byte without taking it has had it all the same. So of a document that
arrives the state says whether the next byte is there already, and a fault
is placed behind all that has arrived. Of a document that is held nothing
comes of looking, and a fault is placed behind what was taken, or behind
the byte that was looked at.

A fault of fit is at first without a place; the value around it sets the
place when it is done (`placed`).
-/

namespace Abacus

namespace Json

/-- How a document comes: held as a whole, or arriving byte by byte. -/
inductive Source
  | held
  | arriving
deriving DecidableEq

/-- How far a reader is: how the document comes, the bytes taken, the bytes
left, and whether the first of these has arrived already. -/
structure State where
  source : Source
  taken : Nat
  rest : List UInt8
  peeked : Bool

namespace State

/-- Before the first byte. -/
def start (source : Source) (bytes : List UInt8) : State := ⟨source, 0, bytes, false⟩

/-- The bytes before the place where a reader is: those taken, and one that
has arrived already. -/
def place (s : State) : Nat := s.taken + if s.peeked then 1 else 0

/-- The same with the byte that was looked at, if there is one. What arrives
has arrived with it. -/
def nextPlace (s : State) : Nat :=
  match s.source with
  | .held => s.taken + min 1 s.rest.length
  | .arriving => s.place

/-- After taking `n` bytes, without a look ahead. -/
def drop (s : State) (n : Nat) : State :=
  { s with taken := s.taken + n, rest := s.rest.drop n, peeked := false }

/-- The same place after a look ahead, with which a byte arrives unless none
is left. -/
def look (s : State) : State := { s with peeked := s.source == .arriving && !s.rest.isEmpty }

@[simp] theorem rest_look (s : State) : s.look.rest = s.rest := rfl

@[simp] theorem rest_drop (s : State) (n : Nat) : (s.drop n).rest = s.rest.drop n := rfl

end State

/-- A fault and the bytes before its place, if that is set. -/
structure Failure where
  fault : Fault
  place : Option Nat
deriving DecidableEq

/-- A reader of values. Its state survives a failure. -/
abbrev Reader (α : Type) := EStateM Failure State α

namespace Reader

variable {α β : Type}

/-- A failure at the last byte taken. -/
def fail (fault : Fault) : Reader α := fun s => .error ⟨fault, some s.place⟩ s

/-- A failure at the byte looked at. -/
def failAtNext (fault : Fault) : Reader α := fun s => .error ⟨fault, some s.nextPlace⟩ s

/-- A failure whose place is set by the value around. -/
def failUnplaced (fault : Fault) : Reader α := fun s => .error ⟨fault, none⟩ s

/-- A reader that sets the place of a failure that has none. -/
def placed (r : Reader α) : Reader α := fun s =>
  match r s with
  | .ok a t => .ok a t
  | .error f t => .error { f with place := f.place.or (some t.place) } t

/-- The next byte, not taken. -/
def peek : Reader (Option UInt8) := fun s => .ok s.rest.head? s.look

/-- The next byte, taken. -/
def next : Reader (Option UInt8) := fun s =>
  match s.rest with
  | [] => .ok none s.look
  | b :: _ => .ok (some b) (s.drop 1)

/-- So many bytes taken. -/
def take (n : Nat) : Reader Unit := fun s => .ok () (s.drop n)

/-- One byte taken that was looked at. -/
def skip : Reader Unit := take 1

/-- The bytes of a class up to the first that is not, none of them
taken. -/
def upcoming (p : UInt8 → Bool) : Reader (List UInt8) := fun s => .ok (s.rest.takeWhile p) s

/-- The bytes of a class up to the first that is not, which is looked
at. -/
def takeWhile (p : UInt8 → Bool) : Reader (List UInt8) := fun s =>
  .ok (s.rest.takeWhile p) (s.drop (s.rest.takeWhile p).length).look

/-- Reading with as many rounds as bytes are left, and one more. -/
def bounded (r : Nat → Reader α) : Reader α := fun s => r (s.rest.length + 1) s

end Reader

/-! ## Bytes of the grammar -/

/-- The byte of an ASCII character. -/
def byte (c : Char) : UInt8 := UInt8.ofNat c.toNat

/-- Blanks between the parts of a document. -/
def isBlank (b : UInt8) : Bool :=
  b == byte ' ' || b == byte '\n' || b == byte '\t' || b == byte '\r'

/-- Decimal digits. -/
def isDigit (b : UInt8) : Bool := byte '0' ≤ b && b ≤ byte '9'

/-- The byte after blanks, not taken. -/
def afterBlanks : Reader (Option UInt8) := do
  let _ ← Reader.takeWhile isBlank
  Reader.peek

/-- The rest of a word whose first letter was taken. -/
def word : List Char → Reader Unit
  | [] => pure ()
  | c :: cs => do
    match ← Reader.next with
    | none => Reader.fail .endInValue
    | some b => if b = byte c then word cs else Reader.fail .expectedWord

/-- The colon between a name and its value. -/
def colon : Reader Unit := do
  match ← afterBlanks with
  | none => Reader.failAtNext .endInObject
  | some b => if b = byte ':' then Reader.skip else Reader.failAtNext .expectedColon

/-! ## Whole documents -/

/-- A line and column for a reader of messages: lines from one, columns in
bytes. -/
structure Position where
  line : Nat
  column : Nat
deriving DecidableEq

/-- The position after the first `n` bytes of a document. -/
def Position.after (bytes : List UInt8) (n : Nat) : Position where
  line := 1 + (bytes.take n).count (byte '\n')
  column := ((bytes.take n).reverse.takeWhile (· != byte '\n')).length

/-- Why a document could not be read: the fault, and its position unless
no value around it had one. -/
structure ReadError where
  fault : Fault
  position : Option Position
deriving DecidableEq

/-- The words of a fault with its position. -/
def ReadError.message (e : ReadError) : List Char :=
  match e.position with
  | none => e.fault.message
  | some p =>
    e.fault.message ++ " at line ".toList ++ natural p.line ++ " column ".toList ++
      natural p.column

/-- What is reported of a failure. -/
def Failure.report (f : Failure) (bytes : List UInt8) : ReadError where
  fault := f.fault
  position := f.place.map (Position.after bytes)

/-- A value that is the whole of a document, but for blanks. -/
def whole {α : Type} (r : Reader α) : Reader α := do
  let a ← r
  match ← afterBlanks with
  | none => pure a
  | some _ => Reader.failAtNext .trailingCharacters

/-- **Reading a document.** -/
def read {α : Type} (r : Reader α) (source : Source) (bytes : List UInt8) :
    Except ReadError α :=
  match whole r (State.start source bytes) with
  | .ok a _ => .ok a
  | .error f _ => .error (f.report bytes)

end Json

end Abacus
