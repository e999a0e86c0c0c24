import Abacus.Pattern

/-!
# Searching a text for a pattern

A pattern becomes a list of instructions, and a search follows all ways
through them at once, one character after another. The ways stand in the
order in which the pattern prefers them. A way that has come to the end of
the pattern cuts off those after it, and the ways before it go on.
-/

namespace Abacus

/-- One step of a search. A step goes on to the instruction after it unless
it names another. -/
inductive Instruction
  | take (s : CharSet)
  | look (l : Look)
  | fork (first second : Nat)
  | jump (target : Nat)
  | stop

/-- Instructions by their addresses. -/
abbrev Program := Array Instruction

namespace Pattern

/-- How many instructions a pattern has. -/
def size : Pattern → Nat
  | .nothing => 0
  | .one _ => 1
  | .look _ => 1
  | .group _ p => p.size
  | .seq p q => p.size + q.size
  | .either p q => p.size + q.size + 2
  | .repeated .any _ p => p.size + 2
  | .repeated _ _ p => p.size + 1

/-- A fork that prefers `further` if it is greedy, else `done`. -/
def fork (greedy : Bool) (further done : Nat) : Instruction :=
  if greedy then .fork further done else .fork done further

/-- The instructions of a pattern from the address `a` on. They lead to the
address after the last of them. Any number of rounds is none or at least
one. -/
def code : Pattern → Nat → List Instruction
  | .nothing, _ => []
  | .one s, _ => [.take s]
  | .look l, _ => [.look l]
  | .group _ p, a => p.code a
  | .seq p q, a => p.code a ++ q.code (a + p.size)
  | .either p q, a =>
    .fork (a + 1) (a + p.size + 2) ::
      (p.code (a + 1) ++ .jump (a + p.size + q.size + 2) :: q.code (a + p.size + 2))
  | .repeated .optional greedy p, a => fork greedy (a + 1) (a + p.size + 1) :: p.code (a + 1)
  | .repeated .some greedy p, a => p.code a ++ [fork greedy a (a + p.size + 1)]
  | .repeated .any greedy p, a =>
    fork greedy (a + 1) (a + p.size + 2) ::
      (p.code (a + 1) ++ [fork greedy (a + 1) (a + p.size + 2)])

/-- The instructions for a match that begins anywhere, as early as
possible. -/
def program (p : Pattern) : Program :=
  ((Pattern.seq (.repeated .any false (.one .full)) p).code 0 ++ [Instruction.stop]).toArray

end Pattern

/-- The addresses that a search has come to at one place of the text, and
those of them where it waits for a character or a look or is done, the
least preferred first. -/
structure Reached where
  seen : List Nat
  waiting : List Nat

namespace Program

/-- What is reached from an address, along with what was reached before,
where some looks let through. An address that was reached before is not
followed again, so no way is longer than the program, which bounds the
rounds. -/
def follow (program : Program) (passes : Look → Bool) : Nat → Reached → Nat → Reached
  | 0, r, _ => r
  | n + 1, r, a =>
    if r.seen.contains a then r
    else
      let r : Reached := ⟨a :: r.seen, r.waiting⟩
      let waits : Reached := ⟨r.seen, a :: r.waiting⟩
      match program[a]? with
      | none => r
      | some (.take _) => waits
      | some .stop => waits
      | some (.look l) => if passes l then program.follow passes n waits (a + 1) else waits
      | some (.jump b) => program.follow passes n r b
      | some (.fork b c) => program.follow passes n (program.follow passes n r b) c

/-- Where a search waits that has come to some addresses, in the order of
preference. -/
def reach (program : Program) (passes : Look → Bool) (ways : List Nat) : List Nat :=
  (ways.foldl (program.follow passes program.size) ⟨[], []⟩).waiting.reverse

/-- Whether a search waits at an address for a look that holds only now
that the character after it is seen. -/
def isReleased (program : Program) (before after : Option Char) (a : Nat) : Bool :=
  match program[a]? with
  | some (.look l) => l.holds before after && !l.holdsBehind before
  | _ => false

/-- Where a search waits between two characters. It first goes as far as the
character behind it allows. If the one ahead allows more, it goes on from
where it waits, and a repetition that it passed before can then be entered
anew. -/
def settle (program : Program) (before after : Option Char) (ways : List Nat) : List Nat :=
  let early := program.reach (fun l => l.holdsBehind before) ways
  if early.any (program.isReleased before after) then
    program.reach (fun l => l.holds before after) early
  else early

/-- Whether an address is the end of the pattern. -/
def isDone (program : Program) (a : Nat) : Bool :=
  match program[a]? with
  | some .stop => true
  | _ => false

/-- Whether an address takes a character. -/
def takes (program : Program) (c : Char) (a : Nat) : Bool :=
  match program[a]? with
  | some (.take s) => s.contains c
  | _ => false

/-- The addresses after a character. What is less preferred than a match is
given up. -/
def advance (program : Program) (waiting : List Nat) (c : Char) : List Nat :=
  ((waiting.takeWhile fun a => !program.isDone a).filter (program.takes c)).map (· + 1)

/-- Whether the ways that lead from some addresses through a text are at
the end of the pattern when the text ends. -/
def endsDone (program : Program) : Option Char → List Char → List Nat → Bool
  | before, [], ways => (program.settle before none ways).any program.isDone
  | before, c :: cs, ways =>
    program.endsDone (some c) cs (program.advance (program.settle before (some c) ways) c)

end Program

/-- **Whether the preferred match of a pattern ends where the text ends.**
The match that begins first is preferred, and of those that begin together
the one that the pattern's choices prefer. -/
def Pattern.matchesEnd (p : Pattern) (text : List Char) : Bool :=
  p.program.endsDone none text [0]

end Abacus
