import Abacus.Pattern.Bracket

/-!
# Written patterns

A written pattern is read from left to right. What is being read are the
alternatives of the innermost group, and the groups around it wait until
it closes. A written pattern that is no pattern has no meaning at all:
there is no literal reading of what cannot be read.
-/

namespace Abacus

namespace Pattern

/-- A piece of a pattern and how deep it is nested. A piece that only sets
flags cannot be repeated. -/
structure Piece where
  pattern : Pattern
  depth : Nat
  setsFlags : Bool

namespace Piece

/-- A piece without parts. -/
def simple (p : Pattern) : Piece := ⟨p, 0, false⟩

/-- Pieces put together. Only two or more make a level of their own. -/
def join (together : List Pattern → Pattern) : List Piece → Piece
  | [p] => p
  | ps =>
    ⟨together (ps.map Piece.pattern),
      if ps.isEmpty then 0 else (ps.map Piece.depth).foldl max 0 + 1, false⟩

end Piece

/-- The alternatives of a group up to here: those that are complete and the
pieces of the one that is not, the last first in both. -/
structure OpenGroup where
  alternatives : List Piece
  pieces : List Piece

namespace OpenGroup

/-- A group of which nothing is read. -/
def fresh : OpenGroup := ⟨[], []⟩

/-- A group with one piece more. -/
def add (g : OpenGroup) (p : Piece) : OpenGroup := ⟨g.alternatives, p :: g.pieces⟩

/-- A group behind a bar. -/
def nextAlternative (g : OpenGroup) : OpenGroup :=
  ⟨Piece.join Pattern.inOrder g.pieces.reverse :: g.alternatives, []⟩

/-- What is read of a group. -/
def whole (g : OpenGroup) : Piece :=
  Piece.join Pattern.choice g.nextAlternative.alternatives.reverse

end OpenGroup

/-- A pattern that is partly read: the flags and the innermost group, the
groups around it, each with the number of the one inside it, if that has
one, and the flags that hold again behind it, how many groups have numbers,
and the names that groups have. -/
structure Reading where
  flags : Flags
  group : OpenGroup
  outer : List (OpenGroup × Option Nat × Flags)
  numbered : Nat
  names : List (List Char)

namespace Reading

/-- Nothing read. -/
def start : Reading := ⟨.usual, .fresh, [], 0, []⟩

/-- One piece more. -/
def add (r : Reading) (p : Piece) : Reading := { r with group := r.group.add p }

/-- A group without a number opened, with flags of its own. -/
def openPlain (r : Reading) (f : Flags) : Reading :=
  ⟨f, .fresh, (r.group, none, r.flags) :: r.outer, r.numbered, r.names⟩

/-- A group with the next number opened. -/
def openNumbered (r : Reading) : Reading :=
  ⟨r.flags, .fresh, (r.group, some r.numbered, r.flags) :: r.outer, r.numbered + 1, r.names⟩

/-- The innermost group closed, if one is open. -/
def closeGroup? (r : Reading) : Option Reading :=
  match r.outer with
  | [] => none
  | (g, number, f) :: outer =>
    let inner := r.group.whole
    let p := match number with
      | none => inner.pattern
      | some n => .group n inner.pattern
    some ⟨f, g.add ⟨p, inner.depth + 1, false⟩, outer, r.numbered, r.names⟩

/-- The last piece repeated. A question mark right behind the mark of the
repetition turns its preference round. -/
def repeatLast? (r : Reading) (rounds : Rounds) (cs : List Char) :
    Option (Reading × List Char) :=
  match r.group.pieces with
  | [] => none
  | p :: ps =>
    if p.setsFlags then none
    else
      let turned := cs.head? = some '?'
      let p : Piece := ⟨.times rounds (r.flags.reluctant == turned) p.pattern, p.depth + 1, false⟩
      some ({ r with group := ⟨r.group.alternatives, p :: ps⟩ }, if turned then cs.drop 1 else cs)

/-- Whether a name may be that of a group. -/
def isGroupName (name : List Char) : Bool :=
  match name with
  | [] => false
  | c :: cs => (c = '_' || isAlphabeticAnywhere c) &&
      cs.all fun c => ['_', '.', '[', ']'].contains c || isAlphanumericAnywhere c

/-- A group with a name opened, from the name on. -/
def openNamed? (r : Reading) (cs : List Char) : Option (Reading × List Char) :=
  let name := cs.takeWhile (· != '>')
  match cs.drop name.length with
  | [] => none
  | _ :: rest =>
    if isGroupName name && !r.names.contains name then
      some ({ r.openNumbered with names := name :: r.names }, rest)
    else none

/-- Flags set for the rest of a group, or for a group that they open. -/
def setFlags? (r : Reading) (cs : List Char) : Option (Reading × List Char) :=
  match r.flags.read? [] cs with
  | some (f, letters, ')' :: rest) =>
    if letters.isEmpty then none else some ({ r.add ⟨.nothing, 0, true⟩ with flags := f }, rest)
  | some (f, _, _ :: rest) => some (r.openPlain f, rest)
  | _ => none

/-- What an opening parenthesis begins. Looking around is not part of
patterns. -/
def readGroup? (r : Reading) (cs : List Char) : Option (Reading × List Char) :=
  match r.flags.blanks cs with
  | '?' :: '=' :: _ => none
  | '?' :: '!' :: _ => none
  | '?' :: '<' :: '=' :: _ => none
  | '?' :: '<' :: '!' :: _ => none
  | '?' :: 'P' :: '<' :: rest => r.openNamed? rest
  | '?' :: '<' :: rest => r.openNamed? rest
  | '?' :: rest => r.setFlags? rest
  | rest => some (r.openNumbered, rest)

/-- A single character. -/
def literal? (f : Flags) (l : Literal) : Option Piece :=
  if l.asByte && !f.unicode && !l.isAscii then none
  else (f.fold? (.single l.char)).map fun s => .simple (.one s)

/-- Any character, but for the ends of lines. Without `unicode` there is
none. -/
def dot? (f : Flags) : Option Piece :=
  if !f.unicode then none
  else if f.dotTakesAll then some (.simple (.one .full))
  else
    let lineEnds := if f.wideLines then ['\n', '\r'] else ['\n']
    some (.simple (.one (CharSet.ofRanges (lineEnds.map fun c => (c, c))).complement))

/-- The place at the start of the text or of a line. -/
def startMark (f : Flags) : Look := if f.manyLines then .lineStart f.wideLines else .textStart

/-- The place at the end of the text or of a line. -/
def endMark (f : Flags) : Look := if f.manyLines then .lineEnd f.wideLines else .textEnd

/-- The piece of an escape. -/
def escaped? (f : Flags) : Escape → Option Piece
  | .literal l => literal? f l
  | .look l => some (.simple (.look l))
  | .set s => some (.simple (.one s))

/-- **One step**: the first character of a text read, and what belongs to
it. A number of repetitions in braces is not part of patterns. -/
def step? (r : Reading) (c : Char) (cs : List Char) : Option (Reading × List Char) :=
  match c with
  | '(' => r.readGroup? cs
  | ')' => r.closeGroup?.map (·, cs)
  | '|' => some ({ r with group := r.group.nextAlternative }, cs)
  | '[' => (Bracket.read? r.flags cs).map fun b =>
      (r.add ⟨.one b.1.set, b.1.depth, false⟩, b.2)
  | '?' => r.repeatLast? .optional cs
  | '*' => r.repeatLast? .any cs
  | '+' => r.repeatLast? .some cs
  | '\x7b' => none
  | '.' => (dot? r.flags).map fun p => (r.add p, cs)
  | '^' => some (r.add (.simple (.look (startMark r.flags))), cs)
  | '$' => some (r.add (.simple (.look (endMark r.flags))), cs)
  | '\\' =>
    match Escape.read? r.flags cs with
    | none => none
    | some (e, rest) => (escaped? r.flags e).map fun p => (r.add p, rest)
  | c => (literal? r.flags (.plain c)).map fun p => (r.add p, cs)

/-- Steps until the text ends, which every step brings nearer. -/
def steps? : Nat → Reading → List Char → Option Reading
  | 0, _, _ => none
  | n + 1, r, cs =>
    match r.flags.blanks cs with
    | [] => some r
    | c :: cs =>
      match r.step? c cs with
      | none => none
      | some (r, rest) => steps? n r rest

end Reading

/-- How deep a pattern may be nested. -/
def depthLimit : Nat := 250

/-- **The pattern that a text writes**, if it writes one. -/
def ofText? (text : List Char) : Option Pattern :=
  match Reading.steps? (text.length + 1) .start text with
  | none => none
  | some r =>
    let p := r.group.whole
    if r.outer.isEmpty && p.depth ≤ depthLimit then some p.pattern else none

end Pattern

end Abacus
