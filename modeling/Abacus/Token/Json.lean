import Abacus.Json.Shape
import Abacus.Tokenizer

/-!
# Tokens in JSON

A token is written as an object whose one member names its kind. A number
has its value there, a symbol its name. A token with its span is an object
of the two. Reading takes back what is written and more: any spelling of
numbers and blanks, members in any order, records as lists.
-/

namespace Abacus

namespace Operator

/-- An operator in JSON. -/
def toJson (o : Operator) : List Char := Json.text o.name.toList

/-- An operator from JSON. -/
def reader : Json.Reader Operator :=
  Json.plainVariant (all.map name) fun s => ofName? (String.ofList s)

end Operator

namespace Parenthesis

/-- A parenthesis in JSON. -/
def toJson (p : Parenthesis) : List Char := Json.text p.name.toList

/-- A parenthesis from JSON. -/
def reader : Json.Reader Parenthesis :=
  Json.plainVariant (all.map name) fun s => ofName? (String.ofList s)

end Parenthesis

namespace Token

/-- The kinds of tokens. -/
inductive Kind
  | number
  | operator
  | parenthesis
deriving DecidableEq

namespace Kind

/-- All kinds in order. -/
def all : List Kind := [.number, .operator, .parenthesis]

/-- The name of a kind in records. -/
def name : Kind → String
  | .number => "Number"
  | .operator => "Operator"
  | .parenthesis => "Parenthesis"

/-- The kind with a name. -/
def ofName? (name : String) : Option Kind := all.find? fun k => name == k.name

end Kind

/-- A token in JSON. -/
def toJson : Token → List Char
  | .number v => Json.object [Json.member Kind.number.name (Json.number v)]
  | .operator o => Json.object [Json.member Kind.operator.name o.toJson]
  | .parenthesis p => Json.object [Json.member Kind.parenthesis.name p.toJson]

/-- A token from JSON. -/
def reader : Json.Reader Token :=
  Json.valuedVariant (Kind.all.map Kind.name) (fun s => Kind.ofName? (String.ofList s)) fun
    | .number => .number <$> Json.double
    | .operator => .operator <$> Operator.reader
    | .parenthesis => .parenthesis <$> Parenthesis.reader

end Token

namespace Span

/-- A span in JSON. -/
def toJson (s : Span) : List Char :=
  Json.object
    [ Json.member "start" (Json.natural s.start), Json.member "end" (Json.natural s.stop),
      Json.member "line" (Json.natural s.line), Json.member "column" (Json.natural s.column) ]

/-- The fields of a span that were read. -/
structure Fields where
  start : Option Nat
  stop : Option Nat
  line : Option Nat
  column : Option Nat

/-- A member of a span. -/
def member (name : List Char) (f : Fields) : Json.Reader Fields :=
  match String.ofList name with
  | "start" => do
    let n ← Json.memberOnce "start" f.start Json.naturalValue
    pure { f with start := some n }
  | "end" => do
    let n ← Json.memberOnce "end" f.stop Json.naturalValue
    pure { f with stop := some n }
  | "line" => do
    let n ← Json.memberOnce "line" f.line Json.naturalValue
    pure { f with line := some n }
  | "column" => do
    let n ← Json.memberOnce "column" f.column Json.naturalValue
    pure { f with column := some n }
  | _ => do
    Json.memberPassed
    pure f

/-- A span of fields that are all there. -/
def ofFields (f : Fields) : Json.Reader Span := do
  let start ← Json.required "start" f.start
  let stop ← Json.required "end" f.stop
  let line ← Json.required "line" f.line
  let column ← Json.required "column" f.column
  pure ⟨start, stop, line, column⟩

/-- A field of a span written as a list, with so many before it. -/
def field (before : Nat) : Json.Reader Nat :=
  Json.fieldInOrder (before == 0) Json.naturalValue
    (Json.Reader.failUnplaced (.wrongLength before (.recordItems "Span" 4)))

/-- A span from the items of a list. -/
def ofItems : Json.Reader Span := do
  let start ← field 0
  let stop ← field 1
  let line ← field 2
  let column ← field 3
  pure ⟨start, stop, line, column⟩

/-- A span from JSON. -/
def reader : Json.Reader Span :=
  Json.record "Span" ⟨none, none, none, none⟩ member ofFields ofItems

end Span

namespace TokenSpan

/-- A token with its span in JSON. -/
def toJson (t : TokenSpan) : List Char :=
  Json.object [Json.member "token" t.token.toJson, Json.member "span" t.span.toJson]

/-- The fields of a token with its span that were read. -/
structure Fields where
  token : Option Token
  span : Option Span

/-- A member of a token with its span. -/
def member (name : List Char) (f : Fields) : Json.Reader Fields :=
  match String.ofList name with
  | "token" => do
    let t ← Json.memberOnce "token" f.token Token.reader
    pure { f with token := some t }
  | "span" => do
    let s ← Json.memberOnce "span" f.span Span.reader
    pure { f with span := some s }
  | _ => do
    Json.memberPassed
    pure f

/-- A token with its span, of fields that are both there. -/
def ofFields (f : Fields) : Json.Reader TokenSpan := do
  let token ← Json.required "token" f.token
  let span ← Json.required "span" f.span
  pure ⟨token, span⟩

/-- The failure of a list with too few items. -/
def tooShort {α : Type} (before : Nat) : Json.Reader α :=
  Json.Reader.failUnplaced (.wrongLength before (.recordItems "TokenSpan" 2))

/-- A token with its span from the items of a list. -/
def ofItems : Json.Reader TokenSpan := do
  let token ← Json.fieldInOrder true Token.reader (tooShort 0)
  let span ← Json.fieldInOrder false Span.reader (tooShort 1)
  pure ⟨token, span⟩

/-- A token with its span from JSON. -/
def reader : Json.Reader TokenSpan :=
  Json.record "TokenSpan" ⟨none, none⟩ member ofFields ofItems

end TokenSpan

/-- Tokens in JSON. -/
def tokensJson (tokens : List Token) : List Char := Json.array (tokens.map Token.toJson)

/-- Tokens with their spans in JSON. -/
def spansJson (tokens : List TokenSpan) : List Char := Json.array (tokens.map TokenSpan.toJson)

/-- **Tokens from a JSON document.** -/
def tokensOfJson (source : Json.Source) (bytes : List UInt8) : Except Json.ReadError (List Token) :=
  Json.read (Json.list Token.reader) source bytes

/-- **Tokens with their spans from a JSON document.** -/
def spansOfJson (source : Json.Source) (bytes : List UInt8) :
    Except Json.ReadError (List TokenSpan) :=
  Json.read (Json.list TokenSpan.reader) source bytes

end Abacus
