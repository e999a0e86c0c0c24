import Abacus.Settings
import Abacus.Trace

/-!
# Log records

A record comes from the command itself or from a scan. The scan is a span:
a record from inside it tells in what state the tokenizer was when the
scan began, as long as the span itself is let through.
-/

namespace Abacus

/-- Where a record comes from. -/
inductive Origin
  | command
  | scan (before : Tokenizer)
deriving DecidableEq

/-- A log record. -/
structure LogRecord where
  origin : Origin
  level : Level
  message : List Char
deriving DecidableEq

namespace Origin

/-- The part of the program that a record names as its source. -/
def target : Origin → String
  | .command => "calclex"
  | .scan _ => "calclex::tokenizer::token"

/-- The span around a record. -/
def span : Origin → List Char
  | .command => []
  | .scan before => "tokenize\x7bself=".toList ++ before.text ++ "\x7d: ".toList

end Origin

namespace LogRecord

/-- A record as a line, with the span around it or without. -/
def line (r : LogRecord) (withSpan : Bool) : List Char :=
  r.level.name.toList ++ [' '] ++ (if withSpan then r.origin.span else []) ++
    r.origin.target.toList ++ ": ".toList ++ r.message

/-- The record of the settings in force. -/
def settings (s : Settings) : LogRecord where
  origin := .command
  level := .debug
  message :=
    "config: CliConfig \x7b format: ".toList ++ s.format.name.toList ++
      ", log_filter: ".toList ++ quoted s.logFilter ++ ", show_spans: ".toList ++
      (if s.showSpans then "true" else "false").toList ++ " \x7d".toList

/-- The record that input will be read. -/
def reading : LogRecord where
  origin := .command
  level := .info
  message := "reading expressions from stdin".toList

/-- The record of what a scan found. -/
def found (tokens skipped : Nat) : LogRecord where
  origin := .command
  level := .debug
  message :=
    Nat.toDigits 10 tokens ++ " tokens, ".toList ++ Nat.toDigits 10 skipped ++
      " characters skipped".toList

/-- The record of a scan's event. -/
def event (before : Tokenizer) (e : ScanEvent) : LogRecord where
  origin := .scan before
  level := e.level
  message := e.message

end LogRecord

end Abacus
