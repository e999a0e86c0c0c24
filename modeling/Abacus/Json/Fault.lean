import Abacus.Json.Printer
import Abacus.Text.Quoted

/-!
# What can be wrong with a document

A fault is a cause, not a text: a document ends too early, it is no JSON
at a place, or it is JSON that does not fit what is read. `Fault.category`
tells the three apart and `Fault.message` gives the words.
-/

namespace Abacus

namespace Json

/-- What a document held where something else was wanted. -/
inductive Found
  | null
  | boolean (b : Bool)
  | natural (n : Nat)
  | negative (n : Nat)
  | float (x : Binary64)
  | text (s : List Char)
  | sequence
  | map
  | bareVariant
deriving DecidableEq

/-- What was wanted of a value. -/
inductive Wanted
  | double
  | natural
  | boolean
  | text
  | null
  | sequence
  | record (name : String)
  | recordItems (name : String) (count : Nat)
  | variantWithValue
deriving DecidableEq

/-- What is wrong with a document. -/
inductive Fault
  | endInValue
  | endInList
  | endInObject
  | endInText
  | expectedColon
  | expectedCommaOrListEnd
  | expectedCommaOrObjectEnd
  | expectedWord
  | expectedValue
  | invalidEscape
  | invalidNumber
  | numberOutOfRange
  | invalidUtf8
  | controlCharacter
  | keyNotText
  | loneSurrogate
  | halfSurrogatePair
  | trailingComma
  | trailingCharacters
  | wrongType (found : Found) (wanted : Wanted)
  | wrongValue (found : Found) (wanted : Wanted)
  | wrongLength (count : Nat) (wanted : Wanted)
  | missingField (name : String)
  | duplicateField (name : String)
  | unknownVariant (name : List Char) (known : List String)
deriving DecidableEq

/-- The kinds of faults: no JSON, JSON that does not fit, or JSON cut
short. -/
inductive Category
  | malformed
  | mismatched
  | truncated
deriving DecidableEq

namespace Fault

/-- The kind of a fault. -/
def category : Fault → Category
  | .endInValue | .endInList | .endInObject | .endInText => .truncated
  | .wrongType .. | .wrongValue .. | .wrongLength .. | .missingField .. | .duplicateField ..
  | .unknownVariant .. => .mismatched
  | _ => .malformed

end Fault

/-- A name between grave accents, as messages quote it. -/
def accented (name : List Char) : List Char := '\x60' :: (name ++ ['\x60'])

/-- The words for what was found. -/
def Found.phrase : Found → List Char
  | .null => "null".toList
  | .boolean b => "boolean ".toList ++ accented (Json.boolean b)
  | .natural n => "integer ".toList ++ accented (Json.natural n)
  | .negative n => "integer ".toList ++ accented ('-' :: Json.natural n)
  | .float x => "floating point ".toList ++ accented (Json.number x)
  | .text s => "string ".toList ++ quoted s
  | .sequence => "sequence".toList
  | .map => "map".toList
  | .bareVariant => "unit variant".toList

/-- The words for what was wanted. -/
def Wanted.phrase : Wanted → List Char
  | .double => "f64".toList
  | .natural => "usize".toList
  | .boolean => "a boolean".toList
  | .text => "a string".toList
  | .null => "unit".toList
  | .sequence => "a sequence".toList
  | .record name => "struct ".toList ++ name.toList
  | .recordItems name count =>
    "struct ".toList ++ name.toList ++ " with ".toList ++ Json.natural count ++ " elements".toList
  | .variantWithValue => "newtype variant".toList

/-- The names a variant may have: two with a word between, more as a
list. -/
def knownPhrase : List String → List Char
  | [a] => "expected ".toList ++ accented a.toList
  | [a, b] => "expected ".toList ++ accented a.toList ++ " or ".toList ++ accented b.toList
  | known =>
    "expected one of ".toList ++
      List.intercalate [',', ' '] (known.map fun a => accented a.toList)

/-- **The words of a fault.** -/
def Fault.message : Fault → List Char
  | .endInValue => "EOF while parsing a value".toList
  | .endInList => "EOF while parsing a list".toList
  | .endInObject => "EOF while parsing an object".toList
  | .endInText => "EOF while parsing a string".toList
  | .expectedColon => "expected ".toList ++ accented [':']
  | .expectedCommaOrListEnd =>
    "expected ".toList ++ accented [','] ++ " or ".toList ++ accented [']']
  | .expectedCommaOrObjectEnd =>
    "expected ".toList ++ accented [','] ++ " or ".toList ++ accented ['\x7d']
  | .expectedWord => "expected ident".toList
  | .expectedValue => "expected value".toList
  | .invalidEscape => "invalid escape".toList
  | .invalidNumber => "invalid number".toList
  | .numberOutOfRange => "number out of range".toList
  | .invalidUtf8 => "invalid unicode code point".toList
  | .controlCharacter =>
    "control character (\\u0000-\\u001F) found while parsing a string".toList
  | .keyNotText => "key must be a string".toList
  | .loneSurrogate => "lone leading surrogate in hex escape".toList
  | .halfSurrogatePair => "unexpected end of hex escape".toList
  | .trailingComma => "trailing comma".toList
  | .trailingCharacters => "trailing characters".toList
  | .wrongType found wanted =>
    "invalid type: ".toList ++ found.phrase ++ ", expected ".toList ++ wanted.phrase
  | .wrongValue found wanted =>
    "invalid value: ".toList ++ found.phrase ++ ", expected ".toList ++ wanted.phrase
  | .wrongLength count wanted =>
    "invalid length ".toList ++ Json.natural count ++ ", expected ".toList ++ wanted.phrase
  | .missingField name => "missing field ".toList ++ accented name.toList
  | .duplicateField name => "duplicate field ".toList ++ accented name.toList
  | .unknownVariant name known =>
    "unknown variant ".toList ++ accented name ++ ", ".toList ++ knownPhrase known

end Json

end Abacus
