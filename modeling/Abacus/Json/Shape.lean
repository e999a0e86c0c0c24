import Abacus.Json.Skip

/-!
# Shapes of values

Lists, records and variants are read by what they hold. A record is an
object, or a list of its fields in order. A variant is the text of its
name, or an object whose one member has it. Around a list or an object
that could not be read the closing is still tried, and only then is a
place set for a fault that has none.
-/

namespace Abacus

namespace Json

variable {α κ σ : Type}

/-- The closing of a list. -/
def listEnd : Reader Unit := do
  match ← afterBlanks with
  | none => Reader.failAtNext .endInList
  | some b =>
    if b = byte ']' then Reader.skip
    else if b = byte ',' then
      Reader.skip
      if (← afterBlanks) = some (byte ']') then Reader.failAtNext .trailingComma
      else Reader.failAtNext .trailingCharacters
    else Reader.failAtNext .trailingCharacters

/-- The closing of an object. -/
def objectEnd : Reader Unit := do
  match ← afterBlanks with
  | none => Reader.failAtNext .endInObject
  | some b =>
    if b = byte '\x7d' then Reader.skip
    else if b = byte ',' then Reader.failAtNext .trailingComma
    else Reader.failAtNext .trailingCharacters

/-- What stands inside brackets, and the closing. After a failure inside,
the closing is tried and its own failure not told. -/
def closedBy (close : Reader Unit) (inside : Reader α) : Reader α := fun s =>
  match inside s with
  | .ok a t =>
    match close t with
    | .ok _ u => .ok a u
    | .error f u => .error f u
  | .error f t =>
    match close t with
    | .ok _ u => .error f u
    | .error _ u => .error f u

/-- Whether a list has another item. The first comes without a comma. -/
def hasItem (first : Bool) : Reader Bool := do
  match ← afterBlanks with
  | none => Reader.failAtNext .endInList
  | some b =>
    if b = byte ']' then pure false
    else if first then pure true
    else if b = byte ',' then
      Reader.skip
      match ← afterBlanks with
      | none => Reader.failAtNext .endInValue
      | some c => if c = byte ']' then Reader.failAtNext .trailingComma else pure true
    else Reader.failAtNext .expectedCommaOrListEnd

/-- The name of the next member of an object, if it has another. -/
def nextName (first : Bool) : Reader (Option (List Char)) := do
  match ← afterBlanks with
  | none => Reader.failAtNext .endInObject
  | some b =>
    if b = byte '\x7d' then pure none
    else if first then
      if b = byte '"' then name else Reader.failAtNext .keyNotText
    else if b = byte ',' then
      Reader.skip
      match ← afterBlanks with
      | none => Reader.failAtNext .endInValue
      | some c =>
        if c = byte '"' then name
        else if c = byte '\x7d' then Reader.failAtNext .trailingComma
        else Reader.failAtNext .keyNotText
    else Reader.failAtNext .expectedCommaOrObjectEnd
where
  name : Reader (Option (List Char)) := do
    Reader.skip
    some <$> textBody

/-! ## Values that are not what was wanted -/

/-- The failure of a value that is not what was wanted. A value without
parts is read to its end first; a list or an object only shows its
bracket. -/
def unwanted (wanted : Wanted) : Reader α := do
  match ← Reader.peek with
  | none => Reader.failAtNext .expectedValue
  | some b =>
    if b = byte 'n' then
      Reader.skip
      word ['u', 'l', 'l']
      Reader.failUnplaced (.wrongType .null wanted)
    else if b = byte 't' then
      Reader.skip
      word ['r', 'u', 'e']
      Reader.failUnplaced (.wrongType (.boolean true) wanted)
    else if b = byte 'f' then
      Reader.skip
      word ['a', 'l', 's', 'e']
      Reader.failUnplaced (.wrongType (.boolean false) wanted)
    else if b = byte '-' then
      Reader.skip
      let n ← numeric false
      Reader.failUnplaced (.wrongType n.found wanted)
    else if isDigit b then
      let n ← numeric true
      Reader.failUnplaced (.wrongType n.found wanted)
    else if b = byte '"' then
      Reader.skip
      let s ← textBody
      Reader.failUnplaced (.wrongType (.text s) wanted)
    else if b = byte '[' then Reader.failUnplaced (.wrongType .sequence wanted)
    else if b = byte '\x7b' then Reader.failUnplaced (.wrongType .map wanted)
    else Reader.failAtNext .expectedValue

/-- A value by its first byte; what does not begin one that is wanted is
refused. -/
def valueBy (wanted : Wanted) (r : UInt8 → Option (Reader α)) : Reader α := do
  match ← afterBlanks with
  | none => Reader.failAtNext .endInValue
  | some b => Reader.placed ((r b).getD (unwanted wanted))

/-! ## Values without parts -/

/-- A number, whatever its form. -/
def numericValue (wanted : Wanted) (use : Numeric → Reader α) : Reader α :=
  valueBy wanted fun b =>
    if b = byte '-' then some do
      Reader.skip
      use (← numeric false)
    else if isDigit b then some do
      use (← numeric true)
    else none

/-- A double. -/
def double : Reader Binary64 :=
  numericValue .double fun n => pure <|
    match n with
    | .natural n => Binary64.ofNat n
    | .negative n => (Binary64.ofNat n).negate
    | .float x => x

/-- A natural number. -/
def naturalValue : Reader Nat :=
  numericValue .natural fun
    | .natural n => pure n
    | .negative n => Reader.failUnplaced (.wrongValue (.negative n) .natural)
    | .float x => Reader.failUnplaced (.wrongType (.float x) .natural)

/-- A truth value. -/
def booleanValue : Reader Bool :=
  valueBy .boolean fun b =>
    if b = byte 't' then some do
      Reader.skip
      word ['r', 'u', 'e']
      pure true
    else if b = byte 'f' then some do
      Reader.skip
      word ['a', 'l', 's', 'e']
      pure false
    else none

/-- A text. -/
def textValue : Reader (List Char) :=
  valueBy .text fun b =>
    if b = byte '"' then some do
      Reader.skip
      textBody
    else none

/-- Null. -/
def nullValue : Reader Unit :=
  valueBy .null fun b =>
    if b = byte 'n' then some do
      Reader.skip
      word ['u', 'l', 'l']
    else none

/-! ## Lists, records and variants -/

/-- The items of a list that is open, in at most so many rounds. -/
def items (item : Reader α) : Nat → Bool → Reader (List α)
  | 0, _ => pure []
  | rounds + 1, first => do
    if ← hasItem first then
      let a ← item
      let more ← items item rounds false
      pure (a :: more)
    else pure []

/-- **A list.** -/
def list (item : Reader α) : Reader (List α) :=
  valueBy .sequence fun b =>
    if b = byte '[' then some do
      Reader.skip
      closedBy listEnd (Reader.bounded fun rounds => items item rounds true)
    else none

/-- The members of an object that is open, each by its name, in at most so
many rounds. -/
def members (member : List Char → σ → Reader σ) : Nat → Bool → σ → Reader σ
  | 0, _, s => pure s
  | rounds + 1, first, s => do
    match ← nextName first with
    | none => pure s
    | some name =>
      let s ← member name s
      members member rounds false s

/-- A record: what is collected of an object's members and then completed,
or the fields in order as a list. -/
def record (name : String) (empty : σ) (member : List Char → σ → Reader σ)
    (complete : σ → Reader α) (inOrder : Reader α) : Reader α :=
  valueBy (.record name) fun b =>
    if b = byte '[' then some do
      Reader.skip
      closedBy listEnd inOrder
    else if b = byte '\x7b' then some do
      Reader.skip
      closedBy objectEnd do
        let s ← Reader.bounded fun rounds => members member rounds true empty
        complete s
    else none

/-- The value of a member that must not be there yet. -/
def memberOnce (name : String) (present : Option α) (value : Reader α) : Reader α := do
  if present.isSome then Reader.failUnplaced (.duplicateField name)
  else
    colon
    value

/-- A member that nobody asked for. -/
def memberPassed : Reader Unit := do
  colon
  passValue

/-- A field that must be there. -/
def required (name : String) : Option α → Reader α
  | some a => pure a
  | none => Reader.failUnplaced (.missingField name)

/-- The next field of a record written as a list, or what stands for it
when the list is at its end. -/
def fieldInOrder (first : Bool) (value : Reader α) (otherwise : Reader α) : Reader α := do
  if ← hasItem first then value else otherwise

/-- A variant's name, from its opening mark on. -/
def variantName (known : List String) (ofName? : List Char → Option κ) : Reader κ :=
  Reader.placed do
    Reader.skip
    let name ← textBody
    match ofName? name with
    | some k => pure k
    | none => Reader.failUnplaced (.unknownVariant name known)

/-- **A variant**: its name alone, or an object with its name and a
value. -/
def variant (known : List String) (ofName? : List Char → Option κ)
    (bare : κ → Reader α) (valued : κ → Reader α) : Reader α := do
  match ← afterBlanks with
  | none => Reader.failAtNext .endInValue
  | some b =>
    if b = byte '\x7b' then
      Reader.skip
      match ← afterBlanks with
      | none => Reader.failAtNext .endInObject
      | some c =>
        if c = byte '"' then
          let k ← variantName known ofName?
          colon
          let a ← valued k
          match ← afterBlanks with
          | none => Reader.fail .endInObject
          | some d =>
            if d = byte '\x7d' then
              Reader.skip
              pure a
            else Reader.fail .expectedValue
        else if c = byte '\x7d' then Reader.failAtNext .expectedValue
        else Reader.failAtNext .keyNotText
    else if b = byte '"' then
      let k ← variantName known ofName?
      bare k
    else Reader.failAtNext .expectedValue

/-- A variant without a value: in an object it has null. -/
def plainVariant (known : List String) (ofName? : List Char → Option κ) : Reader κ :=
  variant known ofName? pure fun k => do
    nullValue
    pure k

/-- A variant that has to have a value. -/
def valuedVariant (known : List String) (ofName? : List Char → Option κ)
    (valued : κ → Reader α) : Reader α :=
  variant known ofName?
    (fun _ => Reader.failUnplaced (.wrongType .bareVariant .variantWithValue)) valued

end Json

end Abacus
