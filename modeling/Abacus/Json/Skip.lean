import Abacus.Json.Number
import Abacus.Json.Text

/-!
# Values passed over

A member that nobody asked for is read only for its form. What is open
around the reader is a stack of brackets, so no depth is too great. The
form is the grammar's, but for two liberties: a number cut short is an
invalid number, and a text need not be UTF-8.
-/

namespace Abacus

namespace Json

/-- A list or an object that is open. -/
inductive Frame
  | list
  | object
deriving DecidableEq

namespace Frame

/-- The byte that closes a frame. -/
def closer : Frame → UInt8
  | .list => byte ']'
  | .object => byte '\x7d'

/-- What is wrong with a document that ends in a frame. -/
def cutShort : Frame → Fault
  | .list => .endInList
  | .object => .endInObject

/-- What is wrong where a frame neither goes on nor ends. -/
def expectedComma : Frame → Fault
  | .list => .expectedCommaOrListEnd
  | .object => .expectedCommaOrObjectEnd

end Frame

/-- An exponent passed over, from its letter on. -/
def passExponent : Reader Unit := do
  Reader.skip
  let _ ← exponentSign
  match ← Reader.next with
  | none => Reader.fail .invalidNumber
  | some d =>
    if isDigit d then discard (Reader.takeWhile isDigit) else Reader.fail .invalidNumber

/-- A fraction passed over, from its point on. -/
def passFraction : Reader Unit := do
  Reader.skip
  let ds ← Reader.takeWhile isDigit
  if ds.isEmpty then Reader.failAtNext .invalidNumber
  else if isExponentMark (← Reader.peek) then passExponent
  else pure ()

/-- A number passed over, from after its sign. -/
def passNumber : Reader Unit := do
  match ← Reader.next with
  | none => Reader.fail .invalidNumber
  | some d =>
    if !isDigit d then Reader.fail .invalidNumber
    else
      let _ ← moreDigits d
      let b ← Reader.peek
      if b = some (byte '.') then passFraction
      else if isExponentMark b then passExponent
      else pure ()

/-- A value without parts passed over, or the frame that it opens. -/
def passHead : Reader (Option Frame) := do
  match ← afterBlanks with
  | none => Reader.failAtNext .endInValue
  | some b =>
    if b = byte 'n' then do Reader.skip; word ['u', 'l', 'l']; pure none
    else if b = byte 't' then do Reader.skip; word ['r', 'u', 'e']; pure none
    else if b = byte 'f' then do Reader.skip; word ['a', 'l', 's', 'e']; pure none
    else if b = byte '-' then do Reader.skip; passNumber; pure none
    else if isDigit b then do passNumber; pure none
    else if b = byte '"' then do Reader.skip; passText; pure none
    else if b = byte '[' then do Reader.skip; pure (some .list)
    else if b = byte '\x7b' then do Reader.skip; pure (some .object)
    else Reader.failAtNext .expectedValue

/-- The ends of frames after a value, or after the opening of the innermost
frame (`afterValue` is false). What is left is the stack whose top goes on,
or nothing when all are closed. -/
def passEnds : Bool → List Frame → Reader (List Frame)
  | _, [] => pure []
  | afterValue, frame :: outer => do
    match ← afterBlanks with
    | none => Reader.failAtNext frame.cutShort
    | some b =>
      if b = frame.closer then
        Reader.skip
        passEnds true outer
      else if !afterValue then pure (frame :: outer)
      else if b = byte ',' then
        Reader.skip
        pure (frame :: outer)
      else Reader.failAtNext frame.expectedComma

/-- The name of a member, where the frame is an object, and its colon. -/
def passName : Frame → Reader Unit
  | .list => pure ()
  | .object => do
    match ← afterBlanks with
    | none => Reader.failAtNext .endInObject
    | some b =>
      if b = byte '"' then
        Reader.skip
        passText
        colon
      else Reader.failAtNext .keyNotText

/-- A value inside some frames passed over with all that follows it to the
end of the outermost, in at most so many rounds. -/
def passFrames : Nat → List Frame → Reader Unit
  | 0, _ => Reader.fail .endInValue
  | rounds + 1, frames => do
    let opened ← passHead
    let frames ← match opened with
      | none => passEnds true frames
      | some frame => passEnds false (frame :: frames)
    match frames with
    | [] => pure ()
    | frame :: outer =>
      passName frame
      passFrames rounds (frame :: outer)

/-- **A value passed over.** -/
def passValue : Reader Unit := Reader.bounded fun rounds => passFrames rounds []

end Json

end Abacus
