/-!
# Levels of log records

Five levels from the gravest to the most talkative.
-/

namespace Abacus

/-- How weighty a record is, the gravest first. -/
inductive Level
  | error
  | warn
  | info
  | debug
  | trace
deriving DecidableEq

namespace Level

/-- The level's name in records. -/
def name : Level → String
  | .error => "ERROR"
  | .warn => "WARN"
  | .info => "INFO"
  | .debug => "DEBUG"
  | .trace => "TRACE"

/-- Levels counted from the gravest, which is 1. -/
def rank : Level → Nat
  | .error => 1
  | .warn => 2
  | .info => 3
  | .debug => 4
  | .trace => 5

/-- The level with a name, the case of ASCII letters aside. -/
def ofName? (name : List Char) : Option Level :=
  [error, warn, info, debug, trace].find? fun l => String.ofList (name.map Char.toUpper) == l.name

end Level

end Abacus
