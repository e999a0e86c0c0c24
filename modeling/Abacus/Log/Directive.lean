import Abacus.Log.Level
import Abacus.Pattern.Reader
import Abacus.Pattern.Search
import Abacus.Text.Alphanumeric
import Abacus.Text.Utf8

/-!
# Directives — what a log filter is made of

A directive names a target, a span, a field and a level, any of which may
be missing, as in `target[span{field=value}]=level`. Its marks are
found in the trimmed text and counted in bytes, but its words are cut from
the text as it is, blanks at its start included. A cut that falls within a
character is another fault than a text that is no directive: a filter can do
without the second, but not with the first.
-/

namespace Abacus

/-- Why a text is not read as a directive. -/
inductive Misread
  | malformed
  | splitCharacter
deriving DecidableEq

/-- A value that is asked for: its text, and the pattern that it is unless it
is a number or a truth value. -/
structure ValuePattern where
  text : List Char
  pattern : Option Pattern

/-- A field that is asked for, perhaps with a value. -/
structure FieldPattern where
  name : List Char
  value : Option ValuePattern

/-- One directive of a filter. Levels are let through up to `limit`,
counted as `Level.rank` does; none is at zero. -/
structure Directive where
  target : Option (List Char)
  span : Option (List Char)
  field : Option FieldPattern
  limit : Nat

namespace ValuePattern

/-- Whether a text writes a number: a decimal with or without point and
exponent, an infinity, or none. -/
def isNumber (s : List Char) : Bool :=
  let s := unsigned s
  if ["inf", "infinity", "nan"].contains (String.ofList (s.map Char.toLower)) then true
  else
    let whole := s.takeWhile Char.isDigit
    let rest := s.dropWhile Char.isDigit
    if rest.head? = some '.' then
      let fraction := (rest.drop 1).takeWhile Char.isDigit
      !(whole.isEmpty && fraction.isEmpty) && isExponent ((rest.drop 1).dropWhile Char.isDigit)
    else !whole.isEmpty && isExponent rest
where
  unsigned (s : List Char) : List Char :=
    if s.head? = some '+' || s.head? = some '-' then s.drop 1 else s
  isExponent : List Char → Bool
    | [] => true
    | c :: cs =>
      let ds := unsigned cs
      (c = 'e' || c = 'E') && !ds.isEmpty && ds.all Char.isDigit

/-- Whether a text writes a number or a truth value. -/
def isScalar (s : List Char) : Bool :=
  s = "true".toList || s = "false".toList || isNumber s

/-- A value by its text. -/
def read (s : List Char) : Except Misread ValuePattern :=
  if isScalar s then .ok ⟨s, none⟩
  else
    match Pattern.ofText? s with
    | none => .error .malformed
    | some p => .ok ⟨s, some p⟩

/-- Whether a value accepts a text. Numbers and truth values are no texts
and accept none. -/
def accepts (v : ValuePattern) (shown : List Char) : Bool :=
  v.pattern.any fun p => p.matchesEnd shown

end ValuePattern

namespace FieldPattern

/-- A field by its text: its name up to an equals sign, and its value up to
the next. -/
def read (s : List Char) : Except Misread FieldPattern :=
  let name := s.takeWhile (· != '=')
  match s.drop name.length with
  | [] => .ok ⟨name, none⟩
  | _ :: rest => (ValuePattern.read (rest.takeWhile (· != '='))).map fun v => ⟨name, some v⟩

/-- Whether two fields are asked for with the same words. -/
def sameText (f g : FieldPattern) : Bool :=
  f.name == g.name && f.value.map ValuePattern.text == g.value.map ValuePattern.text

end FieldPattern

namespace Directive

/-! ## Levels -/

/-- Every level. -/
def everything : Nat := Level.trace.rank

/-- The limit of a number from 0 to 5 or of a level's name; `off` is
zero. -/
def limit? (s : List Char) : Option Nat :=
  match number? s with
  | some n => if n ≤ everything then some n else byName
  | none => byName
where
  number? (s : List Char) : Option Nat :=
    let ds := if s.head? = some '+' then s.drop 1 else s
    if ds.isEmpty || !ds.all Char.isDigit then none else some (Nat.ofDigitChars 10 ds 0)
  byName : Option Nat :=
    if s.isEmpty then some Level.error.rank
    else if String.ofList (s.map Char.toLower) = "off" then some 0
    else (Level.ofName? s).map Level.rank

/-- The limit behind an equals sign; nothing there stands for every
level. -/
def limitAfter (s : List Char) : Except Misread Nat :=
  if s.isEmpty then .ok everything
  else
    match limit? s with
    | none => .error .malformed
    | some n => .ok n

/-- A word by itself: a limit, or a target of which everything is let
through. -/
def ofWord (s : List Char) : Directive :=
  match limit? s with
  | some n => ⟨none, none, none, n⟩
  | none => ⟨some s, none, none, everything⟩

/-! ## Words and marks -/

/-- A text without the white space at its ends. -/
def trim (s : List Char) : List Char :=
  ((s.dropWhile isWhiteSpace).reverse.dropWhile isWhiteSpace).reverse

/-- Where a directive may begin, other than with a bracket. -/
def startsTarget (c : Char) : Bool := c = '-' || c = ':' || c = '_' || isAlphanumericAnywhere c

/-- A text from the byte `a` on. -/
def cutFrom (s : List Char) (a : Nat) : Except Misread (List Char) :=
  match Utf8.split? a s with
  | none => .error .splitCharacter
  | some (_, rest) => .ok rest

/-- A text from the byte `a` on up to the byte `b`. -/
def cut (s : List Char) (a b : Nat) : Except Misread (List Char) := do
  match Utf8.split? (b - a) (← cutFrom s a) with
  | none => .error .splitCharacter
  | some (word, _) => pure word

/-- The first of some marks in what is left of a text at the byte `a`: the
byte it stands at, the mark, and what is left behind it. -/
def nextMark (marks : List Char) (a : Nat) (left : List Char) : Option (Nat × Char × List Char) :=
  match left.dropWhile fun c => !marks.contains c with
  | [] => none
  | c :: more => some (a + Utf8.size (left.takeWhile fun c => !marks.contains c), c, more)

/-- What follows a closed bracket: nothing, or a limit. -/
def afterBracket (s : List Char) (target span : Option (List Char)) (field : Option FieldPattern)
    (a : Nat) : List Char → Except Misread Directive
  | [] => .ok ⟨target, span, field, everything⟩
  | c :: _ => do
    if c = '=' then return ⟨target, span, field, ← limitAfter (← cutFrom s (a + 1))⟩
    else .error .malformed

/-- What follows an opened brace: a field, which closes with the bracket. -/
def inBrace (s : List Char) (target span : Option (List Char)) (a : Nat) (left : List Char) :
    Except Misread Directive :=
  match nextMark ['\x7d'] a left with
  | none => .error .malformed
  | some (b, _, left) => do
    let word ← cut s a b
    if word.isEmpty then .error .malformed
    else
      let field ← FieldPattern.read word
      match left with
      | ']' :: left => afterBracket s target span (some field) (b + 2) left
      | _ => .error .malformed

/-- What follows an opened bracket: a span's name, and perhaps a field. A
field alone may leave out the span. -/
def inBracket (s : List Char) (target : Option (List Char)) (a : Nat) (left : List Char) :
    Except Misread Directive :=
  match nextMark [']', '\x7b'] a left with
  | none => .error .malformed
  | some (b, mark, left) => do
    let name ← cut s a b
    if mark = ']' then afterBracket s target (some name) none (b + 1) left
    else inBrace s target (if name.isEmpty then none else some name) (b + 1) left

/-- **A directive by its text.** -/
def read (s : List Char) : Except Misread Directive :=
  match trim s with
  | [] => .error .malformed
  | c :: cs =>
    if c = '[' then inBracket s none 1 cs
    else if !startsTarget c then .error .malformed
    else
      match nextMark ['=', '['] 0 (c :: cs) with
      | none => .ok (ofWord s)
      | some (b, mark, left) => do
        let target ← cut s 0 b
        if mark = '=' then return ⟨some target, none, none, ← limitAfter (← cutFrom s (b + 1))⟩
        else inBracket s (some target) (b + 1) left

/-! ## What a directive looks at -/

/-- Whether a directive asks for the value of a field. -/
def asksForValue (d : Directive) : Bool := d.field.any fun f => f.value.isSome

/-- Directives that only look at where a record comes from. -/
def isPlain (d : Directive) : Bool := d.span.isNone && !d.asksForValue

/-- Directives that look at spans. -/
def isOfSpans (d : Directive) : Bool := d.span.isSome || d.field.isSome

/-- Whether two directives look at the same, at whatever level. -/
def sameScope (d e : Directive) : Bool :=
  d.target == e.target && d.span == e.span &&
    match d.field, e.field with
    | none, none => true
    | some f, some g => f.sameText g
    | _, _ => false

/-- Whether `d` decides before `e`: by the longer target, then by having a
field, then by the later name of it. -/
def moreSpecific (d e : Directive) : Bool :=
  let size (t : Option (List Char)) : Nat := (t.map fun s => s.length + 1).getD 0
  let name (f : Option FieldPattern) : List Char := (f.map FieldPattern.name).getD []
  if size d.target ≠ size e.target then size e.target < size d.target
  else if d.field.isSome ≠ e.field.isSome then d.field.isSome
  else name e.field < name d.field

end Directive

end Abacus
