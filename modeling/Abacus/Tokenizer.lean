import Abacus.Lexeme
import Abacus.Span

/-!
# Tokenizers — an expression read into placed tokens

A scan cuts the expression into lexemes and sets each between two cursors
(`Placed`). Tokens with their spans, the count of skipped characters and
the place where the scan ends are three views of that one list. A
tokenizer keeps the last two between scans, and a new scan starts afresh.
-/

namespace Abacus

/-- A lexeme between two cursors, with the text from its start on. -/
structure Placed where
  ahead : List Char
  lexeme : Lexeme
  start : Cursor
  stop : Cursor

/-- A token and where it stands. -/
structure TokenSpan where
  token : Token
  span : Span
deriving DecidableEq

namespace Placed

/-- Lexemes set one after another from a cursor on. -/
def row (c : Cursor) : List (List Char × Lexeme) → List Placed
  | [] => []
  | (ahead, l) :: ls => ⟨ahead, l, c, c.past l.text⟩ :: row (c.past l.text) ls

/-- The token of a placed lexeme with its span. -/
def tokenSpan? (p : Placed) : Option TokenSpan :=
  p.lexeme.token.map fun t => ⟨t, .between p.start p.stop⟩

/-- How many characters a placed lexeme skips: all of noise, none of a
token. -/
def skipped (p : Placed) : Nat :=
  if p.lexeme.token.isNone then p.lexeme.text.length else 0

end Placed

/-- What a tokenizer knows between scans: where the last one ended, and how
many characters it skipped. -/
structure Tokenizer where
  cursor : Cursor
  skipped : Nat
deriving DecidableEq

namespace Tokenizer

/-- A tokenizer that has scanned nothing. -/
def new : Tokenizer := ⟨.start, 0⟩

/-- The state a scan starts in, whatever came before. -/
def reset (_t : Tokenizer) : Tokenizer := new

/-- The lexemes of an expression, placed. The alternatives are those of a
lexeme, in an order of choice. -/
def scanBy (alternatives : List Lexeme.Alternative) (t : Tokenizer) (input : List Char) :
    List Placed :=
  Placed.row t.reset.cursor (Lexeme.cut alternatives input)

/-- The lexemes of an expression, placed. -/
def scan (t : Tokenizer) (input : List Char) : List Placed :=
  t.scanBy Lexeme.Alternative.inOrder input

/-- The state after a row of lexemes. -/
def after (t : Tokenizer) (placed : List Placed) : Tokenizer where
  cursor := (placed.getLast?.map Placed.stop).getD t.reset.cursor
  skipped := (placed.map Placed.skipped).foldr (· + ·) t.reset.skipped

/-- **A scan**: the state it leaves, and the tokens with their spans in
order. -/
def tokenize (t : Tokenizer) (input : List Char) : Tokenizer × List TokenSpan :=
  let placed := t.scan input
  (t.after placed, placed.filterMap Placed.tokenSpan?)

/-- A tokenizer in log records. -/
def text (t : Tokenizer) : List Char :=
  "Tokenizer \x7b current_position: ".toList ++ Nat.toDigits 10 t.cursor.offset ++
    ", current_line: ".toList ++ Nat.toDigits 10 t.cursor.line ++
    ", current_column: ".toList ++ Nat.toDigits 10 t.cursor.column ++
    ", skipped: ".toList ++ Nat.toDigits 10 t.skipped ++ " \x7d".toList

end Tokenizer

/-- The tokens of an expression with their spans. -/
def tokenize (input : List Char) : List TokenSpan := (Tokenizer.new.tokenize input).2

/-- The tokens of an expression. -/
def parse (input : List Char) : List Token := (tokenize input).map TokenSpan.token

/-- How many characters of an expression are noise. -/
def skipped (input : List Char) : Nat := (Tokenizer.new.tokenize input).1.skipped

/-- Equal tokens in equal places. -/
def TokenSpan.sameValue (a b : TokenSpan) : Bool := a.token.sameValue b.token && a.span == b.span

/-- Whether two lists agree place by place. -/
def sameBy {α : Type} (same : α → α → Bool) : List α → List α → Bool
  | [], [] => true
  | a :: as, b :: bs => same a b && sameBy same as bs
  | _, _ => false

end Abacus
