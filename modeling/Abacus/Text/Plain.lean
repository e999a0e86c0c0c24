/-!
# Plain text — a text without control sequences

A terminal takes some characters of a text as commands: a control character
by itself, or a sequence that an escape character begins. Plain text is what
is left without them. Blanks that are control characters stay, also where
they interrupt a sequence, and what follows such a blank is plain until the
next command.
-/

namespace Abacus

namespace Plain

/-- Where in a control sequence a place is. A sequence in brackets has
parameters, then marks, then the letter that ends it; if they come in
another order it is ignored up to its end. A string goes on to the
character that closes it. -/
inductive Mode
  | ground
  | escape
  | escapeMarks
  | bracket
  | bracketParameters
  | bracketMarks
  | bracketIgnored
  | device
  | deviceParameters
  | deviceMarks
  | deviceIgnored
  | deviceText
  | command
  | string
deriving DecidableEq

/-- Whether the code point of a character lies between two numbers, both
included. -/
def within (least most : Nat) (c : Char) : Bool := least ≤ c.toNat && c.toNat ≤ most

/-- Blanks that are control characters. -/
def isControlBlank (c : Char) : Bool := c = '\t' || c = '\n' || c = '\x0c' || c = '\r'

/-- Whether a character is one of those that close a string: the byte `9c`
does, wherever it stands. -/
def closesString (c : Char) : Bool := 0x80 ≤ c.toNat && (String.utf8EncodeChar c).contains 0x9c

namespace Mode

/-- Whether control characters act at once, in place of being part of a
string. -/
def acts : Mode → Bool
  | .ground | .escape | .escapeMarks => true
  | .bracket | .bracketParameters | .bracketMarks | .bracketIgnored => true
  | .device | .deviceParameters | .deviceMarks | .deviceIgnored | .deviceText => false
  | .command | .string => false

/-- The mode behind a character that comes after an escape character. -/
def afterEscape (c : Char) : Mode :=
  if within 0x20 0x2f c then .escapeMarks
  else if c = '[' then .bracket
  else if c = ']' then .command
  else if c = 'P' then .device
  else if c = 'X' || c = '^' || c = '_' then .string
  else if within 0x30 0x7e c then .ground
  else .escape

/-- The mode behind a character. An escape character begins a new sequence
everywhere, and two control characters break off what there is. -/
def next (m : Mode) (c : Char) : Mode :=
  if c = '\x1b' then .escape
  else if c = '\x18' || c = '\x1a' then .ground
  else
    match m with
    | .ground => .ground
    | .escape => afterEscape c
    | .escapeMarks => if within 0x30 0x7e c then .ground else m
    | .bracket =>
      if within 0x20 0x2f c then .bracketMarks
      else if within 0x30 0x3f c then .bracketParameters
      else if within 0x40 0x7e c then .ground else m
    | .bracketParameters =>
      if within 0x20 0x2f c then .bracketMarks
      else if within 0x3c 0x3f c then .bracketIgnored
      else if within 0x40 0x7e c then .ground else m
    | .bracketMarks =>
      if within 0x30 0x3f c then .bracketIgnored
      else if within 0x40 0x7e c then .ground else m
    | .bracketIgnored => if within 0x40 0x7e c then .ground else m
    | .device =>
      if within 0x20 0x2f c then .deviceMarks
      else if within 0x30 0x3f c then .deviceParameters
      else if within 0x40 0x7e c then .deviceText else m
    | .deviceParameters =>
      if within 0x20 0x2f c then .deviceMarks
      else if within 0x3c 0x3f c then .deviceIgnored
      else if within 0x40 0x7e c then .deviceText else m
    | .deviceMarks =>
      if within 0x30 0x3f c then .deviceIgnored
      else if within 0x40 0x7e c then .deviceText else m
    | .command => if c = '\x07' then .ground else m
    | .deviceIgnored | .deviceText | .string => if closesString c then .ground else m

end Mode

/-- Whether a character shows itself outside of control sequences. -/
def isShown (c : Char) : Bool := within 0x20 0x7e c || 0x80 ≤ c.toNat || isControlBlank c

/-- What is plain of a text from a mode on. Behind a plain character all is
plain that would be so outside of sequences; the mode is kept for the next
command, which a character past ASCII makes the ground. -/
def strip (plain : Bool) (m : Mode) : List Char → List Char
  | [] => []
  | c :: cs =>
    if (plain || m = .ground) && isShown c then
      c :: strip true (if 0x80 ≤ c.toNat then .ground else m) cs
    else if m.acts && isControlBlank c then c :: strip true m cs
    else strip false (m.next c) cs

end Plain

/-- **A text without its control sequences.** -/
def plain (text : List Char) : List Char := Plain.strip false .ground text

/-- A text without control characters is plain already. -/
theorem plain_of_isShown {text : List Char} (h : ∀ c ∈ text, Plain.isShown c) :
    plain text = text := by
  have keep : ∀ (text : List Char) (b : Bool), (∀ c ∈ text, Plain.isShown c) →
      Plain.strip b .ground text = text := by
    intro text
    induction text with
    | nil => intro b _; rfl
    | cons c cs ih =>
      intro b h
      simp only [List.mem_cons, forall_eq_or_imp] at h
      simp [Plain.strip, h.1, ih true h.2]
  exact keep text false h

end Abacus
