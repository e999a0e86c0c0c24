import Abacus.Pattern.Escape

/-!
# Brackets — sets of characters

Between brackets stand characters, ranges, named sets and further
brackets, which are joined, and operations on what stands at their two
sides, the leftmost first. What is open is kept as a stack of brackets.
Each item has a depth, for patterns may only be nested so deep.
-/

namespace Abacus

namespace Pattern

/-- What is done with the sets at both sides of an operator. -/
inductive SetOperation
  | intersection
  | difference
  | symmetricDifference
deriving DecidableEq

/-- Whether a character of which it is known if it is at the left and if it
is at the right belongs to the outcome. -/
def SetOperation.keeps (o : SetOperation) (left right : Bool) : Bool :=
  match o with
  | .intersection => left && right
  | .difference => left && !right
  | .symmetricDifference => left != right

/-- A set of characters and how deep it is nested. -/
structure NestedSet where
  set : CharSet
  depth : Nat

namespace NestedSet

/-- Sets joined. Only two or more make a level of their own. -/
def union : List NestedSet → NestedSet
  | [] => ⟨.empty, 0⟩
  | [s] => s
  | ss =>
    ⟨(ss.map NestedSet.set).foldl CharSet.union .empty,
      (ss.map NestedSet.depth).foldl max 0 + 1⟩

end NestedSet

/-- A bracket that is open: whether it is negated, what stands before its
last operator, and the items since then, the last of them first. -/
structure OpenBracket where
  negated : Bool
  left : Option (NestedSet × SetOperation)
  items : List NestedSet

namespace OpenBracket

/-- What a bracket holds up to here. -/
def operand (b : OpenBracket) : NestedSet :=
  let right := NestedSet.union b.items
  match b.left with
  | none => right
  | some (left, o) => ⟨.combine o.keeps left.set right.set, max left.depth right.depth + 1⟩

/-- A bracket with one item more. -/
def add (b : OpenBracket) (s : NestedSet) : OpenBracket := ⟨b.negated, b.left, s :: b.items⟩

/-- A bracket behind an operator. -/
def operate (b : OpenBracket) (o : SetOperation) : OpenBracket :=
  ⟨b.negated, some (b.operand, o), []⟩

/-- The set of a bracket that closes. Without `unicode` none is negated,
for it would go beyond ASCII. -/
def close? (f : Flags) (b : OpenBracket) : Option NestedSet :=
  let s := b.operand
  if !b.negated then some ⟨s.set, s.depth + 1⟩
  else if f.unicode then some ⟨s.set.complement, s.depth + 1⟩
  else none

end OpenBracket

namespace Bracket

/-- The item of a set. -/
def leaf? (f : Flags) (s : CharSet) : Option NestedSet := (f.fold? s).map (⟨·, 0⟩)

/-- The item of the characters from `a` to `b`. -/
def range? (f : Flags) (a b : Literal) : Option NestedSet :=
  if b.char < a.char || !(f.unicode || (a.isAscii && b.isAscii)) then none
  else leaf? f (.range a.char b.char)

/-- The named sets, all of ASCII. -/
def named? (name : List Char) : Option CharSet :=
  match String.ofList name with
  | "alnum" => some .alphanumeric
  | "alpha" => some (.ofRanges [('A', 'Z'), ('a', 'z')])
  | "ascii" => some (.range '\x00' '\x7f')
  | "blank" => some (.ofRanges [('\t', '\t'), (' ', ' ')])
  | "cntrl" => some (.ofRanges [('\x00', '\x1f'), ('\x7f', '\x7f')])
  | "digit" => some .digit
  | "graph" => some (.range '!' '~')
  | "lower" => some .lower
  | "print" => some (.range ' ' '~')
  | "punct" => some (.ofRanges [('!', '/'), (':', '@'), ('[', '\x60'), ('\x7b', '~')])
  | "space" => some .space
  | "upper" => some .upper
  | "word" => some .word
  | "xdigit" => some (.ofRanges [('0', '9'), ('A', 'F'), ('a', 'f')])
  | _ => none

/-- A named set behind `[:`, perhaps with a `^` before its name: whether it
is negated, the set, and the rest of the text. -/
def readNamed? (cs : List Char) : Option (Bool × CharSet × List Char) :=
  let negated := cs.head? = some '^'
  let cs := if negated then cs.drop 1 else cs
  let name := cs.takeWhile (· != ':')
  match cs.drop name.length, named? name with
  | ':' :: ']' :: rest, some s => some (negated, s, rest)
  | _, _ => none

/-- One item of a range or of its own. -/
def readItem? (f : Flags) : List Char → Option (Escape × List Char)
  | [] => none
  | '\\' :: cs => Escape.read? f cs
  | c :: cs => some (.literal (.plain c), cs)

/-- A range or a single item, and the rest of the text. A dash before a
dash or before the end of the bracket makes no range. -/
def readRange? (f : Flags) (cs : List Char) : Option (NestedSet × List Char) :=
  match readItem? f cs with
  | none => none
  | some (a, rest) =>
    match f.blanks rest with
    | '-' :: more =>
      let next := f.peekPast more
      if next = some ']' || next = some '-' then single a ('-' :: more)
      else
        match a, readItem? f (f.blanks more) with
        | .literal a, some (.literal b, rest) => (range? f a b).map (·, rest)
        | _, _ => none
    | rest => single a rest
where
  single (a : Escape) (rest : List Char) : Option (NestedSet × List Char) :=
    match a with
    | .literal a => (range? f a a).map (·, rest)
    | .set s => (leaf? f s).map (·, rest)
    | .look _ => none

/-- Dashes at the start of a bracket, which stand for themselves. -/
def readDashes? (f : Flags) : OpenBracket → List Char → Option (OpenBracket × List Char)
  | b, '-' :: rest =>
    match leaf? f (.single '-') with
    | none => none
    | some s => readDashes? f (b.add s) (f.blanks rest)
  | b, cs => some (b, cs)
termination_by _ cs => cs.length
decreasing_by
  have := f.length_blanks_le rest
  simp only [List.length_cons]
  omega

/-- A bracket from behind its opening mark up to its first item. A closing
mark that comes first stands for itself. -/
def opening? (f : Flags) (cs : List Char) : Option (OpenBracket × List Char) :=
  let cs := f.blanks cs
  let negated := cs.head? = some '^'
  match readDashes? f ⟨negated, none, []⟩ (if negated then f.blanks (cs.drop 1) else cs) with
  | none => none
  | some (b, ']' :: rest) =>
    if b.items.isEmpty then (leaf? f (.single ']')).map fun s => (b.add s, f.blanks rest)
    else some (b, ']' :: rest)
  | some (b, rest) => some (b, rest)

/-- The operator that a text begins with. -/
def operator? : List Char → Option SetOperation
  | '&' :: '&' :: _ => some .intersection
  | '-' :: '-' :: _ => some .difference
  | '~' :: '~' :: _ => some .symmetricDifference
  | _ => none

/-- One step inside the innermost bracket `b`, with the brackets around it:
the brackets that are open after it, or the set of the outermost one, and
the rest of the text. -/
def step? (f : Flags) (b : OpenBracket) (outer : List OpenBracket) (cs : List Char) :
    Option ((List OpenBracket ⊕ NestedSet) × List Char) :=
  match f.blanks cs with
  | [] => none
  | ']' :: rest =>
    match b.close? f, outer with
    | none, _ => none
    | some s, [] => some (.inr s, rest)
    | some s, o :: outer => some (.inl (o.add s :: outer), rest)
  | '[' :: rest =>
    match rest with
    | ':' :: more =>
      match readNamed? more with
      | some (negated, s, rest) =>
        if negated && !f.unicode then none
        else
          (leaf? f (if negated then s.complement else s)).map fun s =>
            (.inl (b.add s :: outer), rest)
      | none => nested rest
    | _ => nested rest
  | c :: rest =>
    match operator? (c :: rest) with
    | some o => some (.inl (b.operate o :: outer), rest.drop 1)
    | none => (readRange? f (c :: rest)).map fun r => (.inl (b.add r.1 :: outer), r.2)
where
  nested (rest : List Char) : Option ((List OpenBracket ⊕ NestedSet) × List Char) :=
    (opening? f rest).map fun o => (.inl (o.1 :: b :: outer), o.2)

/-- Steps until the outermost bracket closes. -/
def steps? (f : Flags) : Nat → List OpenBracket → List Char → Option (NestedSet × List Char)
  | n + 1, b :: outer, cs =>
    match step? f b outer cs with
    | none => none
    | some (.inl opened, rest) => steps? f n opened rest
    | some (.inr s, rest) => some (s, rest)
  | _, _, _ => none

/-- **The set of a bracket** from behind its opening mark, and the rest of
the text. Every step takes a character, which bounds their number. -/
def read? (f : Flags) (cs : List Char) : Option (NestedSet × List Char) :=
  match opening? f cs with
  | none => none
  | some (b, rest) => steps? f (rest.length + 1) [b] rest

end Bracket

end Pattern

end Abacus
