/-!
# Sets of characters

A set is kept as the places where membership changes, counted along all
characters in the order of their code points, without the gap of the
surrogates. There is one such list for each set, so equal sets are equal as
values, and every Boolean operation is one walk along two lists.
-/

namespace Abacus

/-- A set of characters, by the places where membership changes, in rising
order. The places before the first are outside. -/
structure CharSet where
  changes : List Nat
deriving DecidableEq

namespace CharSet

/-- The place of a character among all. -/
def place (c : Char) : Nat := if c.toNat < 0xd800 then c.toNat else c.toNat - 0x800

/-- How many characters there are. -/
def count : Nat := 0x10f800

/-- Whether a set has the characters of a place. -/
def containsPlace (s : CharSet) (n : Nat) : Bool :=
  (s.changes.filter fun m => m ≤ n).length % 2 = 1

/-- **Whether a character belongs to a set.** -/
def contains (s : CharSet) (c : Char) : Bool := s.containsPlace (place c)

/-- No characters. -/
def empty : CharSet := ⟨[]⟩

/-- All characters. -/
def full : CharSet := ⟨[0]⟩

/-- The characters from `a` to `b`, none if `b` comes before `a`. -/
def range (a b : Char) : CharSet :=
  if place b < place a then empty
  else ⟨place a :: if place b + 1 < count then [place b + 1] else []⟩

/-- One character. -/
def single (c : Char) : CharSet := range c c

/-- The characters that do not belong to a set. -/
def complement (s : CharSet) : CharSet :=
  match s.changes with
  | 0 :: rest => ⟨rest⟩
  | changes => ⟨0 :: changes⟩

/-- The places where the outcome of an operation changes. It is walked along
the changes of both sides, of which it is known whether the places before
belong to the left and to the right. -/
def walk (o : Bool → Bool → Bool) (left right : Bool) : List Nat → List Nat → List Nat
  | [], [] => []
  | a :: as, [] => step a (o left right) (o (!left) right) (walk o (!left) right as [])
  | [], b :: bs => step b (o left right) (o left !right) (walk o left (!right) [] bs)
  | a :: as, b :: bs =>
    if a < b then step a (o left right) (o (!left) right) (walk o (!left) right as (b :: bs))
    else if b < a then step b (o left right) (o left !right) (walk o left (!right) (a :: as) bs)
    else step a (o left right) (o (!left) !right) (walk o (!left) (!right) as bs)
termination_by as bs => as.length + bs.length
where
  /-- A place more, if the outcome changes there. -/
  step (place : Nat) (before after : Bool) (rest : List Nat) : List Nat :=
    if before = after then rest else place :: rest

/-- A Boolean operation on two sets, which must leave out what is in
neither. -/
def combine (o : Bool → Bool → Bool) (s t : CharSet) : CharSet :=
  ⟨walk o false false s.changes t.changes⟩

/-- What belongs to either of two sets. -/
def union (s t : CharSet) : CharSet := combine (fun a b => a || b) s t

/-- The characters of some ranges. -/
def ofRanges (ranges : List (Char × Char)) : CharSet :=
  ranges.foldl (fun s r => s.union (range r.1 r.2)) empty

/-- Whether a set has exactly one character. -/
def isSingle (s : CharSet) : Bool :=
  match s.changes with
  | [a, b] => b = a + 1
  | [a] => a + 1 = count
  | _ => false

/-! ## Sets of ASCII -/

/-- Digits. -/
def digit : CharSet := range '0' '9'

/-- Capital letters. -/
def upper : CharSet := range 'A' 'Z'

/-- Small letters. -/
def lower : CharSet := range 'a' 'z'

/-- Letters and digits. -/
def alphanumeric : CharSet := (digit.union upper).union lower

/-- Characters of words. -/
def word : CharSet := alphanumeric.union (single '_')

/-- White space. -/
def space : CharSet := ofRanges [('\t', '\r'), (' ', ' ')]

/-- A set along with the other case of its ASCII letters. Cases are 32
places apart. -/
def foldCase (s : CharSet) : CharSet :=
  let both (a b : Bool) : Bool := a && b
  let lowered := (combine both s upper).changes.map (· + 32)
  let raised := (combine both s lower).changes.map (· - 32)
  (s.union ⟨lowered⟩).union ⟨raised⟩

end CharSet

end Abacus
