import Abacus.Settings
import Abacus.Text.Plain

/-!
# The command line

Arguments are expressions and options in any order. An option with a value
takes it from the same argument or from the next one; one-letter options
can share an argument; after `--` all is expressions.

A value that comes as an argument of its own is held back (`Pending`) and
only looked at when the next thing is given, so the fault of an argument
that is no option at all comes first.
-/

namespace Abacus

/-- Options that take a value. -/
inductive ValueOption
  | config
  | format
deriving DecidableEq

/-- Options that are given or not. -/
inductive Switch
  | spans
  | verbose
deriving DecidableEq

/-- Options that ask for a text in place of a run. -/
inductive Inquiry
  | help
  | version
deriving DecidableEq

/-- An option of any kind. -/
inductive AnyOption
  | value (o : ValueOption)
  | switch (s : Switch)
  | inquiry (i : Inquiry)
deriving DecidableEq

namespace AnyOption

/-- All options. -/
def all : List AnyOption :=
  [ .value .config, .value .format, .switch .spans, .switch .verbose, .inquiry .help,
    .inquiry .version ]

/-- The long name of an option. -/
def long : AnyOption → String
  | .value .config => "config"
  | .value .format => "format"
  | .switch .spans => "spans"
  | .switch .verbose => "verbose"
  | .inquiry .help => "help"
  | .inquiry .version => "version"

/-- The letter of an option. -/
def letter : AnyOption → Char
  | .value .config => 'c'
  | .value .format => 'f'
  | .switch .spans => 's'
  | .switch .verbose => 'v'
  | .inquiry .help => 'h'
  | .inquiry .version => 'V'

/-- An option as messages show it, with what its value stands for. -/
def shown (o : AnyOption) : List Char :=
  "--".toList ++ o.long.toList ++
    match o with
    | .value .config => " <CONFIG>".toList
    | .value .format => " <FORMAT>".toList
    | _ => []

/-- The option with a long name. -/
def ofLong? (name : List Char) : Option AnyOption := all.find? fun o => name == o.long.toList

/-- The option with a letter. -/
def ofLetter? (c : Char) : Option AnyOption := all.find? fun o => c == o.letter

end AnyOption

/-- What is wrong with a command line. -/
inductive UsageError
  | unexpectedArgument (argument : List Char)
  | unexpectedValue (value : List Char) (o : AnyOption)
  | missingValue (o : AnyOption)
  | invalidValue (value : List Char) (o : AnyOption)
  | repeated (o : AnyOption)
deriving DecidableEq

/-- **The words for a wrong command line.** What was given is repeated as
plain text. -/
def UsageError.message : UsageError → List Char
  | .unexpectedArgument a => "unexpected argument '".toList ++ plain a ++ "' found".toList
  | .unexpectedValue v o =>
    "unexpected value '".toList ++ plain v ++ "' for '".toList ++ o.shown ++
      "' found; no more were expected".toList
  | .missingValue o =>
    "a value is required for '".toList ++ o.shown ++ "' but none was supplied".toList
  | .invalidValue v o =>
    "invalid value '".toList ++ plain v ++ "' for '".toList ++ o.shown ++ ['\'']
  | .repeated o =>
    "the argument '".toList ++ o.shown ++ "' cannot be used multiple times".toList

/-- What a run is asked to do. -/
structure Options where
  expressions : List (List Char)
  config : List Char
  format : Option Format
  spans : Bool
  verbose : Bool
deriving DecidableEq

/-- What a command line asks for. -/
inductive Request
  | run (options : Options)
  | inquiry (i : Inquiry)
deriving DecidableEq

/-- Where settings are looked for when nothing else is said. -/
def defaultConfig : List Char := "calclex.json".toList

/-- An option that waits for its value, or has one that was not looked at
yet. -/
structure Pending where
  option : ValueOption
  value : Option (List Char)
deriving DecidableEq

/-- A command line that is partly read. -/
structure CommandLine where
  expressions : List (List Char)
  config : Option (List Char)
  format : Option Format
  spans : Bool
  verbose : Bool
  pending : Option Pending
  onlyExpressions : Bool
deriving DecidableEq

/-- Why reading a command line stops before its end. -/
inductive Stop
  | error (e : UsageError)
  | inquiry (i : Inquiry)
deriving DecidableEq

namespace CommandLine

/-- Nothing read. -/
def start : CommandLine := ⟨[], none, none, false, false, none, false⟩

/-- A value given to an option, which must not have one. -/
def give (l : CommandLine) (o : ValueOption) (v : List Char) : Except Stop CommandLine :=
  match o with
  | .config =>
    if l.config.isSome then .error (.error (.repeated (.value .config)))
    else if v.isEmpty then .error (.error (.missingValue (.value .config)))
    else .ok { l with config := some v }
  | .format =>
    if l.format.isSome then .error (.error (.repeated (.value .format)))
    else if v.isEmpty then .error (.error (.missingValue (.value .format)))
    else
      match Format.ofWord? v with
      | some f => .ok { l with format := some f }
      | none => .error (.error (.invalidValue v (.value .format)))

/-- The value that was held back is given. -/
def settle (l : CommandLine) : Except Stop CommandLine :=
  match l.pending with
  | none => .ok l
  | some ⟨o, none⟩ => .error (.error (.missingValue (.value o)))
  | some ⟨o, some v⟩ => give { l with pending := none } o v

/-- An option with a value in its own argument, or with one to come. -/
def takeValue (l : CommandLine) (o : ValueOption) (v : Option (List Char)) :
    Except Stop CommandLine := do
  let l ← l.settle
  match v with
  | some v => l.give o v
  | none => pure { l with pending := some ⟨o, none⟩ }

/-- A switch, which must not have been given. -/
def turnOn (l : CommandLine) (s : Switch) : Except Stop CommandLine := do
  let l ← l.settle
  match s with
  | .spans =>
    if l.spans then .error (.error (.repeated (.switch .spans)))
    else pure { l with spans := true }
  | .verbose =>
    if l.verbose then .error (.error (.repeated (.switch .verbose)))
    else pure { l with verbose := true }

/-- A text asked for in place of a run. -/
def inquire (l : CommandLine) (i : Inquiry) : Except Stop CommandLine := do
  let _ ← l.settle
  .error (.inquiry i)

/-- An expression. -/
def addExpression (l : CommandLine) (e : List Char) : Except Stop CommandLine := do
  let l ← l.settle
  pure { l with expressions := l.expressions ++ [e] }

/-- An argument after two dashes: a long name, perhaps with a value. -/
def readLong (l : CommandLine) (argument : List Char) : Except Stop CommandLine :=
  let name := argument.takeWhile (· != '=')
  let value := if argument.contains '=' then some (argument.drop (name.length + 1)) else none
  match AnyOption.ofLong? name, value with
  | none, _ => .error (.error (.unexpectedArgument ('-' :: '-' :: name)))
  | some (.value o), v => l.takeValue o v
  | some o, some v => .error (.error (.unexpectedValue v o))
  | some (.switch s), none => l.turnOn s
  | some (.inquiry i), none => l.inquire i

/-- An argument after one dash: letters, the last of them perhaps with a
value. An equals sign before the value is not part of it. -/
def readLetters (l : CommandLine) : List Char → Except Stop CommandLine
  | [] => .ok l
  | c :: cs =>
    match AnyOption.ofLetter? c with
    | none => .error (.error (.unexpectedArgument ['-', c]))
    | some (.value o) =>
      l.takeValue o (if cs.isEmpty then none else some (if cs.head? = some '=' then cs.drop 1 else cs))
    | some (.switch s) =>
      match l.turnOn s with
      | .ok l => readLetters l cs
      | .error e => .error e
    | some (.inquiry i) => l.inquire i

/-- An argument that is no option: the value that is waited for, or an
expression. -/
def readPlain (l : CommandLine) (argument : List Char) : Except Stop CommandLine :=
  match l.pending with
  | some ⟨o, none⟩ => .ok { l with pending := some ⟨o, some argument⟩ }
  | _ => l.addExpression argument

/-- One argument. -/
def readArgument (l : CommandLine) (argument : List Char) : Except Stop CommandLine :=
  if l.onlyExpressions then l.addExpression argument
  else
    match argument with
    | ['-', '-'] => .ok { l with onlyExpressions := true }
    | '-' :: '-' :: name => l.readLong name
    | '-' :: c :: cs => l.readLetters (c :: cs)
    | plain => l.readPlain plain

/-- A command line that is read to its end. -/
def options (l : CommandLine) : Options where
  expressions := l.expressions
  config := l.config.getD defaultConfig
  format := l.format
  spans := l.spans
  verbose := l.verbose

/-- All arguments in order. -/
def readAll (arguments : List (List Char)) : Except Stop CommandLine := do
  let l ← arguments.foldlM readArgument start
  l.settle

/-- **What a command line asks for.** -/
def request (arguments : List (List Char)) : Except UsageError Request :=
  match readAll arguments with
  | .ok l => .ok (.run l.options)
  | .error (.inquiry i) => .ok (.inquiry i)
  | .error (.error e) => .error e

end CommandLine

end Abacus
