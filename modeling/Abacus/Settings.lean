/-!
# Settings of the command

How results are printed and what is logged. Settings that are not given
have a default, and the defaults are stated once, here.
-/

namespace Abacus

/-- How tokens are printed: as an expression, or as JSON. -/
inductive Format
  | text
  | json
deriving DecidableEq

namespace Format

/-- Both formats in order. -/
def all : List Format := [.text, .json]

/-- The word for a format in settings and on the command line. -/
def word : Format → String
  | .text => "text"
  | .json => "json"

/-- The name of a format in records. -/
def name : Format → String
  | .text => "Text"
  | .json => "Json"

/-- The format with a word. -/
def ofWord? (w : List Char) : Option Format := all.find? fun f => String.ofList w == f.word

/-- The format with a word, the case of ASCII letters aside. -/
def ofWordAnyCase? (w : List Char) : Option Format :=
  all.find? fun f => (String.ofList (w.map Char.toLower)) == f.word

end Format

/-- The settings of the command. -/
structure Settings where
  format : Format
  logFilter : List Char
  showSpans : Bool
deriving DecidableEq

namespace Settings

/-- What holds where nothing is set. -/
def default : Settings where
  format := .text
  logFilter := "info".toList
  showSpans := false

end Settings

end Abacus
