/-!
# Recognizers — taking a piece off the front of a text

A recognizer either takes a piece off the front of a text and gives it a
value, or fails and says where and why. The account of a failure is a
trail of complaints, innermost first: each names what was wanted and the
text that was there instead. Of several alternatives that all fail, the
trail keeps the account of the last one.
-/

namespace Abacus

/-- What was wanted at a place. -/
inductive Expectation
  | char (c : Char)
  | digit
  | run
  | anyChar
  | alternatives
  | label (name : String)
deriving DecidableEq

/-- Something wanted in vain, with the text that stood there. -/
structure Complaint where
  rest : List Char
  wanted : Expectation
deriving DecidableEq

/-- The account of a failure, innermost complaint first. -/
abbrev Trail := List Complaint

/-- A piece taken off the front of a text, its value, and what is left. -/
structure Match (α : Type) where
  text : List Char
  value : α
  rest : List Char

/-- A recognizer of values. -/
abbrev Recognizer (α : Type) := List Char → Except Trail (Match α)

namespace Recognizer

variable {α β : Type}

/-- The given character. -/
def char (c : Char) : Recognizer Unit
  | [] => .error [⟨[], .char c⟩]
  | d :: rest => if d = c then .ok ⟨[d], (), rest⟩ else .error [⟨d :: rest, .char c⟩]

/-- Any one character. -/
def anyChar : Recognizer Unit
  | [] => .error [⟨[], .anyChar⟩]
  | c :: rest => .ok ⟨[c], (), rest⟩

/-- The longest run of characters of a class, possibly empty. -/
def run (p : Char → Bool) : Recognizer Unit := fun input =>
  .ok ⟨input.takeWhile p, (), input.dropWhile p⟩

/-- The longest run of characters of a class, at least one. -/
def runSome (p : Char → Bool) (wanted : Expectation) : Recognizer Unit := fun input =>
  if (input.takeWhile p).isEmpty then .error [⟨input, wanted⟩] else run p input

/-- One recognizer after another; the texts are joined. -/
def followedBy (r : Recognizer α) (s : Recognizer β) : Recognizer Unit := fun input =>
  match r input with
  | .error t => .error t
  | .ok m =>
    match s m.rest with
    | .error t => .error t
    | .ok n => .ok ⟨m.text ++ n.text, (), n.rest⟩

/-- A recognizer that takes nothing where it would fail. -/
def optionally (r : Recognizer Unit) : Recognizer Unit := fun input =>
  match r input with
  | .error _ => .ok ⟨[], (), input⟩
  | .ok m => .ok m

/-- The value made from the text taken. -/
def valued (f : List Char → β) (r : Recognizer α) : Recognizer β := fun input =>
  match r input with
  | .error t => .error t
  | .ok m => .ok ⟨m.text, f m.text, m.rest⟩

/-- A recognizer under a name: a failure is reported under it as well. -/
def labelled (name : String) (r : Recognizer α) : Recognizer α := fun input =>
  match r input with
  | .error t => .error (t ++ [⟨input, .label name⟩])
  | .ok m => .ok m

/-- The alternatives in order, after one that failed with trail `t`. -/
def firstOf : List (Recognizer α) → Trail → Recognizer α
  | [], t => fun input => .error (t ++ [⟨input, .alternatives⟩])
  | r :: rs, _ => fun input =>
    match r input with
    | .error t => firstOf rs t input
    | .ok m => .ok m

/-- **Ordered choice**: the first alternative that succeeds. If none does,
the last one's trail stays. -/
def oneOf (rs : List (Recognizer α)) : Recognizer α := firstOf rs []

/-- The matches of a recognizer applied over and over, each with the text
it was applied to, until it fails or takes nothing. What is left each time
is the text without as many characters as were taken. -/
def repeated (r : Recognizer α) : List Char → List (List Char × Match α)
  | [] => []
  | c :: cs =>
    match r (c :: cs) with
    | .error _ => []
    | .ok m =>
      if m.text.isEmpty then []
      else (c :: cs, m) :: repeated r (cs.drop (m.text.length - 1))
termination_by input => input.length
decreasing_by simp only [List.length_cons, List.length_drop]; omega

end Recognizer

end Abacus
