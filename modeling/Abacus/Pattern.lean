import Abacus.Pattern.Look

/-!
# Patterns — texts of a form

A pattern is built from sets of characters, places between characters,
sequences, choices and repetitions. Choices are ordered: what a greedy
repetition prefers is one round more, what a reluctant one prefers is to
be done. The order does not change which texts a pattern fits, but which
of several matches in a text is preferred. Sequences and choices are put
together by `inOrder` and `choice`, the second of which takes out what its
alternatives have in common.
-/

namespace Abacus

/-- How many rounds a repetition may have: none or one, any number, or at
least one. -/
inductive Rounds
  | optional
  | any
  | some
deriving DecidableEq

/-- A pattern. Groups are numbered, so that no two groups are the same
pattern. -/
inductive Pattern
  | nothing
  | one (s : CharSet)
  | look (l : Look)
  | group (index : Nat) (p : Pattern)
  | seq (p q : Pattern)
  | either (p q : Pattern)
  | repeated (r : Rounds) (greedy : Bool) (p : Pattern)
deriving DecidableEq

namespace Pattern

/-- Whether a pattern fits the empty text and no other, as far as its form
tells. -/
def fitsOnlyEmpty : Pattern → Bool
  | .nothing => true
  | .one _ => false
  | .look _ => true
  | .group _ p => p.fitsOnlyEmpty
  | .seq p q => p.fitsOnlyEmpty && q.fitsOnlyEmpty
  | .either p q => p.fitsOnlyEmpty && q.fitsOnlyEmpty
  | .repeated _ _ p => p.fitsOnlyEmpty

/-- A pattern repeated. Of what only fits the empty text one round is as good
as many. -/
def times (r : Rounds) (greedy : Bool) (p : Pattern) : Pattern :=
  if !p.fitsOnlyEmpty then .repeated r greedy p
  else
    match r with
    | .some => p
    | _ => .repeated .optional greedy p

/-! ## Sequences -/

/-- The parts of a sequence. -/
def elements : Pattern → List Pattern
  | .nothing => []
  | .seq p q => p.elements ++ q.elements
  | p => [p]

/-- Parts in a sequence. -/
def ofElements : List Pattern → Pattern
  | [] => .nothing
  | [p] => p
  | p :: ps => .seq p (ofElements ps)

/-- Patterns one after another. -/
def inOrder (ps : List Pattern) : Pattern := ofElements (ps.flatMap elements)

/-- Whether a pattern is a character. -/
def isCharacter : Pattern → Bool
  | .one s => s.isSingle
  | _ => false

/-- The parts of a sequence in runs: characters side by side are one. -/
def runs : List Pattern → List (List Pattern)
  | [] => []
  | p :: ps =>
    match runs ps with
    | (q :: qs) :: rest =>
      if p.isCharacter && q.isCharacter then (p :: q :: qs) :: rest else [p] :: (q :: qs) :: rest
    | rest => [p] :: rest

/-! ## Choices -/

/-- The alternatives of a choice. -/
def alternatives : Pattern → List Pattern
  | .either p q => p.alternatives ++ q.alternatives
  | p => [p]

/-- A choice between alternatives, the first preferred. -/
def ofAlternatives : List Pattern → Pattern
  | [] => .nothing
  | [p] => p
  | p :: ps => .either p (ofAlternatives ps)

/-- The set of a pattern, if it is one. -/
def set? : Pattern → Option CharSet
  | .one s => some s
  | _ => none

/-- Alternatives that are all characters, or all sets of another size, as a
single set. -/
def setOf? (ps : List Pattern) : Option CharSet :=
  if ps.all isCharacter || ps.all (fun p => !p.isCharacter) then
    (ps.mapM set?).map fun sets => sets.foldl CharSet.union .empty
  else none

/-- What two lists have in common at their start. -/
def common : List (List Pattern) → List (List Pattern) → List (List Pattern)
  | a :: as, b :: bs => if a = b then a :: common as bs else []
  | _, _ => []

/-- A choice in rounds, each of which takes a common start out of it. -/
def choiceIn : Nat → List Pattern → Pattern
  | 0, ps => ofAlternatives ps
  | n + 1, ps =>
    let ps := ps.flatMap alternatives
    match setOf? ps with
    | some s => .one s
    | none =>
      let rows := ps.map fun p => runs p.elements
      let shared := rows.tail.foldl common (rows.head?.getD [])
      if ps.length < 2 || shared.isEmpty || rows.any fun r => r.length < 2 then ofAlternatives ps
      else
        inOrder (shared.flatten ++
          [choiceIn n (rows.map fun r => ofElements (r.drop shared.length).flatten)])

/-- The number of parts of a pattern. -/
def weight : Pattern → Nat
  | .nothing | .one _ | .look _ => 1
  | .group _ p | .repeated _ _ p => p.weight + 1
  | .seq p q | .either p q => p.weight + q.weight + 1

/-- **A choice between patterns**, the first preferred. What all
alternatives have in common at their start comes before the choice: how it
is matched is preferred over which alternative follows. Each common start
makes what is left of the alternatives lighter, which bounds the rounds. -/
def choice (ps : List Pattern) : Pattern := choiceIn ((ps.map weight).foldr (· + ·) 1) ps

end Pattern

end Abacus
