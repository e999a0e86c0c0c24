/-!
# Spans — where in a text something stands

A cursor counts the bytes, lines and columns passed so far. Bytes are
those of UTF-8; lines and columns start at one, a column is one character
wide whatever its bytes, and only the newline starts a line. A span is
where a token starts and the byte where it ends.
-/

namespace Abacus

/-- A place in a text. -/
structure Cursor where
  offset : Nat
  line : Nat
  column : Nat
deriving DecidableEq

namespace Cursor

/-- The start of every text. -/
def start : Cursor := ⟨0, 1, 1⟩

/-- The place after one character. -/
def advance (c : Cursor) (ch : Char) : Cursor :=
  if ch = '\n' then ⟨c.offset + ch.utf8Size, c.line + 1, 1⟩
  else ⟨c.offset + ch.utf8Size, c.line, c.column + 1⟩

/-- The place after a piece of text. -/
def past (c : Cursor) (text : List Char) : Cursor := text.foldl advance c

@[simp] theorem past_nil (c : Cursor) : c.past [] = c := rfl

@[simp] theorem past_cons (c : Cursor) (ch : Char) (text : List Char) :
    c.past (ch :: text) = (c.advance ch).past text := rfl

theorem past_append (c : Cursor) (a b : List Char) : c.past (a ++ b) = (c.past a).past b :=
  List.foldl_append

end Cursor

/-- Where a token stands: its first byte, the byte after its last, and the
line and column of its start. -/
structure Span where
  start : Nat
  stop : Nat
  line : Nat
  column : Nat
deriving DecidableEq

namespace Span

/-- The span between two cursors. -/
def between (a b : Cursor) : Span := ⟨a.offset, b.offset, a.line, a.column⟩

/-- A span for a reader. -/
def text (s : Span) : List Char :=
  "line: ".toList ++ Nat.toDigits 10 s.line ++ ", column: ".toList ++ Nat.toDigits 10 s.column ++
    ", start: ".toList ++ Nat.toDigits 10 s.start ++ ", end: ".toList ++ Nat.toDigits 10 s.stop

end Span

end Abacus
