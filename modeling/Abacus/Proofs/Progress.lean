import Abacus.Proofs.Numerals
import Abacus.Proofs.Positions

/-!
# Progress — a scan goes on to the end of its text

A scan is a loop. Each round reads one lexeme off what is left, cuts the
text of it by counting bytes, moves the cursor on and keeps the token or
counts the noise (`Scan.step`). A round can halt in two ways: no lexeme is
found, or the cut falls within a character. Neither happens: a text that is
not empty begins with a lexeme (`exists_advances`), and what is left starts
between two characters (`consumed?_append`). Each round takes a character
at least, so there are no more of them than characters (`loop_eq`), and
what they find is what a scan is defined to be.
-/

namespace Abacus

open Lexeme

/-! ## One round of a scan -/

/-- A text up to where the rest of it starts, told by the bytes of both,
unless that is within a character or before the start. -/
def consumed? (input rest : List Char) : Option (List Char) :=
  if Utf8.size rest ≤ Utf8.size input then
    (Utf8.split? (Utf8.size input - Utf8.size rest) input).map Prod.fst
  else none

theorem consumed?_append (front rest : List Char) : consumed? (front ++ rest) rest = some front := by
  have hsize := Utf8.size_append front rest
  have hfront : Utf8.size (front ++ rest) - Utf8.size rest = Utf8.size front := by omega
  rw [consumed?, if_pos (by omega), hfront, Utf8.split?_size]
  rfl

/-- A scan between two rounds: what is left of the text, the tokenizer, and
the tokens so far. -/
structure Scan where
  left : List Char
  tokenizer : Tokenizer
  found : List TokenSpan

namespace Scan

/-- A scan before its first round. -/
def start (t : Tokenizer) (input : List Char) : Scan := ⟨input, t.reset, []⟩

/-- Why a round cannot go on. -/
inductive Halt
  | stalled (t : Trail)
  | splitCharacter

/-- **One round of a scan.** -/
def step (s : Scan) : Except Halt Scan :=
  match next Alternative.inOrder s.left with
  | .error t => .error (.stalled t)
  | .ok m =>
    match consumed? s.left m.rest with
    | none => .error .splitCharacter
    | some text =>
      let start := s.tokenizer.cursor
      let stop := start.past text
      match m.value.token with
      | some t => .ok ⟨m.rest, ⟨stop, s.tokenizer.skipped⟩, s.found ++ [⟨t, .between start stop⟩]⟩
      | none => .ok ⟨m.rest, ⟨stop, s.tokenizer.skipped + m.value.text.length⟩, s.found⟩

/-- Rounds until nothing is left or one halts, if that is within `n` of
them. -/
def loop : Nat → Scan → Option (Except Halt Scan)
  | 0, s => if s.left.isEmpty then some (.ok s) else none
  | n + 1, s =>
    if s.left.isEmpty then some (.ok s)
    else
      match s.step with
      | .error h => some (.error h)
      | .ok next => loop n next

/-- **A round takes the lexeme that leads the text.** -/
theorem step_of_leads {l : Lexeme} {rest : List Char} (h : l.Leads rest) (t : Tokenizer)
    (found : List TokenSpan) :
    step ⟨l.text ++ rest, t, found⟩ =
      .ok ⟨rest, ⟨t.cursor.past l.text, t.skipped + skips l.shred⟩,
        found ++ (l.tokenSpan? t.cursor).toList⟩ := by
  rw [step]
  dsimp only
  rw [next_of_leads h]
  dsimp only
  rw [consumed?_append, skips_shred, tokenSpan?]
  dsimp only
  cases l.token with
  | none => simp
  | some tok => simp

/-- **Rounds go on to the end.** There are at most as many as there are
characters left, and none halts. -/
theorem loop_eq (input : List Char) : ∀ (t : Tokenizer) (found : List TokenSpan) (n : Nat),
    input.length ≤ n → loop n ⟨input, t, found⟩ =
      some (.ok ⟨[], ⟨t.cursor.past input, t.skipped + skips (pieces input)⟩,
        found ++ spans t.cursor (pieces input)⟩) := by
  induction input using text_induction with
  | nil =>
    intro t found n _
    cases n <;> simp [loop]
  | lead l rest h ih =>
    intro t found n hn
    have hpos : 0 < l.text.length := List.length_pos_iff.2 h.ne_nil
    have hlength : (l.text ++ rest).length = l.text.length + rest.length := List.length_append
    obtain ⟨k, rfl⟩ : ∃ k, n = k + 1 := ⟨n - 1, by omega⟩
    have hempty : (l.text ++ rest).isEmpty = false := by simp [h.ne_nil]
    rw [loop, hempty, if_neg Bool.false_ne_true, step_of_leads h]
    dsimp only
    rw [ih _ _ k (by omega), pieces_of_leads h, spans_append, spans_shred, texts_shred, skips_append,
      Cursor.past_append, List.append_assoc, Nat.add_assoc]

end Scan

/-! ## What a round takes -/

/-- **A lexeme is read off the front of a text**, and at least one character
of it. -/
structure Advances (input : List Char) (m : Match Lexeme) : Prop where
  /-- It is the front, and the rest is left as it was. -/
  front : m.text ++ m.rest = input
  /-- It takes a character. -/
  ne_nil : m.text ≠ []
  /-- The rest starts between two characters, where its bytes say. -/
  sliced : consumed? input m.rest = some m.text
  /-- The lexeme holds what was taken. -/
  whole : m.value.text = m.text
  /-- A number takes a digit, and its text is converted. -/
  number : ∀ v, m.value.token = some (.number v) →
    (∃ c ∈ m.text, c.isDigit) ∧ Binary64.ofText? m.text = some v
  /-- Any other token takes one character. -/
  symbol : ∀ t, m.value.token = some t → t.isNumber = false → ∃ c, m.text = [c]

/-- A numeral has a digit. -/
theorem Numeral.Spelled.exists_isDigit {text : List Char} (h : Numeral.Spelled text) :
    ∃ c ∈ text, c.isDigit := by
  cases h with
  | whole hne hds =>
    obtain ⟨c, cs, rfl⟩ := List.exists_cons_of_ne_nil hne
    exact ⟨c, List.mem_cons_self, hds c List.mem_cons_self⟩
  | decimal hne hds _ =>
    obtain ⟨c, cs, rfl⟩ := List.exists_cons_of_ne_nil hne
    exact ⟨c, by simp, hds c List.mem_cons_self⟩
  | fraction hne hfs =>
    obtain ⟨c, cs, rfl⟩ := List.exists_cons_of_ne_nil hne
    exact ⟨c, by simp, hfs c List.mem_cons_self⟩

theorem advances_of_leads {l : Lexeme} {rest : List Char} (h : l.Leads rest) :
    Advances (l.text ++ rest) ⟨l.text, l, rest⟩ where
  front := rfl
  ne_nil := h.ne_nil
  sliced := consumed?_append l.text rest
  whole := rfl
  number v hv := by
    cases h with
    | number hleads =>
      obtain rfl : Numeral.value _ = v := by
        injection hv with hv
        injection hv
      exact ⟨hleads.spelled.exists_isDigit, Numeral.ofText?_of_spelled hleads.spelled⟩
    | symbol hsymbol =>
      obtain rfl := Option.some.inj hv
      exact absurd hsymbol (Token.ofGlyph?_ne_number _ _)
    | noise => cases hv
    | point => cases hv
  symbol t ht hnumber := by
    cases h with
    | number _ =>
      obtain rfl := Option.some.inj ht
      cases hnumber
    | symbol _ => exact ⟨_, rfl⟩
    | noise => cases ht
    | point => cases ht

/-- **Every text that is not empty is read on.** -/
theorem exists_advances (c : Char) (cs : List Char) :
    ∃ m, next Alternative.inOrder (c :: cs) = .ok m ∧ Advances (c :: cs) m := by
  obtain ⟨l, rest, h, happ⟩ := exists_leads c cs
  rw [← happ]
  exact ⟨_, next_of_leads h, advances_of_leads h⟩

/-- **A scan is total and always goes on.** Every text that is not empty
begins with a lexeme, which takes a character at least. So a scan of any
text, by a tokenizer in any state, comes to its end in no more rounds than
there are characters, never halts, finds what it is defined to find, and
has passed all bytes. -/
theorem scan_total :
    (∀ c cs, ∃ m, next Alternative.inOrder (c :: cs) = .ok m ∧ Advances (c :: cs) m) ∧
      ∀ (t : Tokenizer) (input : List Char),
        (Scan.start t input).loop input.length =
          some (.ok ⟨[], (t.tokenize input).1, (t.tokenize input).2⟩) ∧
        (t.tokenize input).1.cursor.offset = Utf8.size input := by
  refine ⟨exists_advances, fun t input => ⟨?_, ?_⟩⟩
  · rw [Scan.start, Scan.loop_eq input _ _ _ le_rfl, Tokenizer.tokenize_fst, skipped_eq_skips,
      ← Cursor.past_start_eq_behind]
    have hfound : (t.tokenize input).2 = tokenize input := rfl
    rw [hfound, tokenize_eq_spans, List.nil_append]
    simp [Tokenizer.reset, Tokenizer.new]
  · rw [Tokenizer.tokenize_fst, ← Cursor.past_start_eq_behind, Cursor.offset_past,
      Cursor.offset_start, Nat.zero_add]

end Abacus
