import Abacus.Command.Input
import Abacus.Command.Line
import Abacus.Log.Filter
import Abacus.Settings.Json
import Abacus.Token.Json

/-!
# Runs of the command

A run takes a command line, what stands under a path, the bytes of its
input and the filter that the environment asks for. It has an output, a
failure or none, and records. The records are made whatever the filter
is, and the filter is only applied to them: what is printed cannot hang
on it, unless the filter splits a character and there is no run at all.
-/

namespace Abacus

/-- Why a run fails. -/
inductive RunFailure
  | usage (e : UsageError)
  | settings (e : SettingsError)
  | badFilter
  | badInput
deriving DecidableEq

namespace RunFailure

/-- The exit code of a failure. -/
def exitCode : RunFailure → Nat
  | .usage _ => 2
  | .badFilter => 101
  | _ => 1

/-- The line that tells of a failure. A filter that splits a character has
none: the run breaks off before it can tell. -/
def message : RunFailure → List Char
  | .usage e => "error: ".toList ++ e.message
  | .settings e => "Error: ".toList ++ e.message
  | .badFilter => []
  | .badInput => "Error: IO error: stream did not contain valid UTF-8".toList

end RunFailure

/-- What a run leaves: its output, its failure, and the lines of its
log. -/
structure Report where
  output : List Char
  failure : Option RunFailure
  log : List (List Char)
deriving DecidableEq

/-- The exit code of a run. -/
def Report.exitCode (r : Report) : Nat := (r.failure.map RunFailure.exitCode).getD 0

/-- What a run finds around it. -/
structure Surroundings where
  input : List UInt8
  node : List Char → Node
  logFilter : Option (List Char)

/-! ## One expression -/

/-- A token with the bytes it stands at. -/
def TokenSpan.text (t : TokenSpan) : List Char :=
  t.token.text ++ '@' :: (Nat.toDigits 10 t.span.start ++ '.' :: '.' :: Nat.toDigits 10 t.span.stop)

/-- **The line printed for the tokens of an expression**, without its
end. -/
def render (format : Format) (showSpans : Bool) (tokens : List TokenSpan) : List Char :=
  match format, showSpans with
  | .text, false => formatTokens (tokens.map TokenSpan.token)
  | .text, true => joinSpaced (tokens.map TokenSpan.text)
  | .json, false => tokensJson (tokens.map TokenSpan.token)
  | .json, true => spansJson tokens

/-- The records of scanning an expression. -/
def scanRecords (t : Tokenizer) (expression : List Char) : List LogRecord :=
  (t.scan expression).map (fun p => .event t (.ofPlaced p)) ++
    [.found (t.tokenize expression).2.length (t.tokenize expression).1.skipped]

/-- Expressions printed in order by one tokenizer: the output and the
records. -/
def printAll (s : Settings) : Tokenizer → List (List Char) → List Char × List LogRecord
  | _, [] => ([], [])
  | t, e :: es =>
    let scanned := t.tokenize e
    let rest := printAll s scanned.1 es
    (render s.format s.showSpans scanned.2 ++ '\n' :: rest.1, scanRecords t e ++ rest.2)

/-! ## Whole runs -/

/-- The settings in force: an option's format comes before that of the
settings, and spans are shown if either asks for them. -/
def Options.inForce (o : Options) (s : Settings) : Settings where
  format := o.format.getD s.format
  logFilter := s.logFilter
  showSpans := s.showSpans || o.spans

/-- The filter that holds where the environment asks for none. -/
def Options.fallbackFilter (o : Options) (s : Settings) : List Char :=
  if o.verbose then "debug".toList else s.logFilter

/-- The output, failure and records of a run with settings in force. -/
def runWith (o : Options) (s : Settings) (input : List UInt8) :
    List Char × Option RunFailure × List LogRecord :=
  if o.expressions.isEmpty then
    let lines := Input.lines input
    let printed := printAll s .new lines.1
    (printed.1, if lines.2 then none else some .badInput,
      .settings s :: .reading :: printed.2)
  else
    let printed := printAll s .new o.expressions
    (printed.1, none, .settings s :: printed.2)

/-- A run of what a command line asks for. -/
def Options.run (o : Options) (around : Surroundings) : Report :=
  match Settings.ofNodeOrDefault (around.node o.config) with
  | .error e => ⟨[], some (.settings e), []⟩
  | .ok s =>
    match LogFilter.choose around.logFilter (o.fallbackFilter s) with
    | .error _ => ⟨[], some .badFilter, []⟩
    | .ok filter =>
      let done := runWith o (o.inForce s) around.input
      ⟨done.1, done.2.1, done.2.2.filterMap filter.line?⟩

/-- The text that is asked for in place of a run. -/
def Inquiry.answer : Inquiry → List Char
  | .version => "calclex 0.1.0\n".toList
  | .help =>
    ("Lexical analyzer for calculator arithmetic expressions\n\n" ++
      "Usage: calclex [OPTIONS] [EXPRESSIONS]...\n\n" ++
      "Arguments:\n" ++
      "  [EXPRESSIONS]...  Expressions to tokenize; reads stdin line by line when omitted\n\n" ++
      "Options:\n" ++
      "  -c, --config <CONFIG>  Path to config file [default: calclex.json]\n" ++
      "  -f, --format <FORMAT>  Output format (overrides the config file) " ++
      "[possible values: text, json]\n" ++
      "  -s, --spans            Print the source location of every token\n" ++
      "  -v, --verbose          Enable debug logging\n" ++
      "  -h, --help             Print help\n" ++
      "  -V, --version          Print version\n").toList

/-- **The command**: what its arguments ask for, done. -/
def command (arguments : List (List Char)) (around : Surroundings) : Report :=
  match CommandLine.request arguments with
  | .error e => ⟨[], some (.usage e), []⟩
  | .ok (.inquiry i) => ⟨i.answer, none, []⟩
  | .ok (.run o) => o.run around

end Abacus
