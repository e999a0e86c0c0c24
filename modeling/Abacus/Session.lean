import Abacus.Tokenizer

/-!
# Sessions — several tokenizers side by side

A session is a pool of tokenizers that starts with one. A step addresses
one of them: it scans an expression, only asks for the count of skipped
characters, or adds a tokenizer to the pool, new or a copy. Every step gives
that count, as it is behind it. A step that addresses none is refused and
changes nothing.
-/

namespace Abacus

/-- What a step does. -/
inductive Session.Action
  | tokenize (input : List Char)
  | skipped
  | clone
  | new
deriving DecidableEq

/-- An action on the tokenizer of an index. -/
structure Session.Step where
  on : Nat
  action : Session.Action
deriving DecidableEq

/-- What a step finds or makes: nothing if it only asks for the count. -/
inductive Session.Answer
  | tokens (spans : List TokenSpan)
  | nothing
  | made (index : Nat)
deriving DecidableEq

/-- The pool of a session. -/
abbrev Session := List Tokenizer

namespace Session

/-- One tokenizer that has scanned nothing. -/
def start : Session := [.new]

/-- An action on the tokenizer `t` of index `i`. -/
def act (s : Session) (i : Nat) (t : Tokenizer) : Action → Answer × Session
  | .tokenize input => (.tokens (t.tokenize input).2, s.set i (t.tokenize input).1)
  | .skipped => (.nothing, s)
  | .clone => (.made s.length, s ++ [t])
  | .new => (.made s.length, s ++ [Tokenizer.new])

/-- **What comes of a step**: its answer, the pool behind it, and the count
of skipped characters that the tokenizer it addresses then gives. Without a
tokenizer there is neither an answer nor a count. -/
structure Outcome where
  answer : Option Answer
  pool : Session
  skipped : Option Nat

/-- A step. -/
def step (s : Session) (p : Step) : Outcome :=
  match s[p.on]? with
  | none => ⟨none, s, none⟩
  | some t =>
    let acted := s.act p.on t p.action
    ⟨acted.1, acted.2, acted.2[p.on]?.map Tokenizer.skipped⟩

/-- What comes of the steps of a run, one after the other. -/
def run : Session → List Step → List Outcome
  | _, [] => []
  | s, p :: ps => s.step p :: run (s.step p).pool ps

/-- The pool after a run of steps. -/
def final (s : Session) (ps : List Step) : Session := ps.foldl (fun s p => (s.step p).pool) s

end Session

end Abacus
