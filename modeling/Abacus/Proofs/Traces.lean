import Abacus.Proofs.Coverage
import Abacus.Proofs.Records
import Mathlib.Algebra.GroupWithZero.Nat
import Mathlib.Data.List.SplitBy

/-!
# Traces — what a scan tells of itself

A scan reads one lexeme after another (`Scanned`), and its trace tells of
each which recognizers were tried for it and what came of it. So the trace
is read off the lexemes (`announced_of_leads`), and what it tells is all
that happened: the tokens are those of the scan, the noise is in its place
(`Scanned.located`), no stretch of it could be longer (`NoiseRun`), and
both together are the whole text. What an event says in words is what it
is (`ScanEvent.Words`). `recounts_trace` says this of every text.
-/

namespace Abacus

open Lexeme

/-! ## The entries of a trace -/

/-- The text that was skipped, if any. -/
def ScanEvent.skippedText? : ScanEvent → Option (List Char)
  | .token .. => none
  | .noise text _ => some text

namespace TraceEntry

/-- What happened, if the entry is of that. -/
def event? : TraceEntry → Option ScanEvent
  | .started _ => none
  | .happened e => some e

/-- The events of a trace, in order. -/
def events (entries : List TraceEntry) : List ScanEvent := entries.filterMap event?

/-- Those of a level. -/
def eventsAt (level : Level) (entries : List TraceEntry) : List ScanEvent :=
  (events entries).filter fun e => e.level = level

/-- The texts that were skipped, in order. -/
def skippedTexts (entries : List TraceEntry) : List (List Char) :=
  (eventsAt .debug entries).filterMap ScanEvent.skippedText?

end TraceEntry

namespace Lexeme

/-- **The recognizers that are tried for a lexeme**: all in order, up to the
one that reads it. -/
def tried (l : Lexeme) : List String :=
  match l.token with
  | some (.number _) => ["parse_number", "recognize_run"]
  | some (.operator _) => ["parse_number", "recognize_run", "parse_operator"]
  | some (.parenthesis _) =>
    ["parse_number", "recognize_run", "parse_operator", "parse_parenthesis"]
  | none =>
    ["parse_number", "recognize_run", "parse_operator", "parse_parenthesis", "parse_noise"]

end Lexeme

/-! ## Noise, said without a scan -/

/-- Two neighbours that are both outside the alphabet. -/
def joinsNoise (a b : Char) : Bool := !Glyph.isRecognized a && !Glyph.isRecognized b

/-- **The runs of noise in a text**: its longest stretches outside the
alphabet, in order. -/
def noiseRuns (input : List Char) : List (List Char) :=
  (input.splitBy joinsNoise).filter fun run => run.all fun c => !Glyph.isRecognized c

/-- A stretch outside the alphabet, between two texts that cannot make it
longer. -/
structure NoiseRun (before text after : List Char) : Prop where
  ne_nil : text ≠ []
  outside : ∀ c ∈ text, Glyph.isRecognized c = false
  left : ∀ c ∈ before.getLast?, Glyph.isRecognized c
  right : ∀ c ∈ after.head?, Glyph.isRecognized c

/-- The characters of a text that no token of it holds, in order. -/
def unheld (input : List Char) : List Char :=
  ((List.range input.length).filter fun i =>
    (holders (tokenize input) (input.take i)).isEmpty).filterMap (input[·]?)

/-- **The stretch of a text that an event is about**: that of the token which
starts there, or the one that was skipped. -/
inductive ScanEvent.About (input : List Char) : ScanEvent → List Char → Prop
  /-- From the start of a token to its end. -/
  | token {t : TokenSpan} {before text after : List Char} : t ∈ tokenize input →
      input = before ++ text ++ after → t.span.start = Utf8.size before →
      t.span.stop = Utf8.size (before ++ text) → About input (.token t.token t.span.start) text
  /-- Noise is told in full, and with its place. -/
  | noise {before text after : List Char} : input = before ++ text ++ after →
      About input (.noise text (Utf8.size before)) text

open TraceEntry in
/-- **A trace that tells all of a scan** and nothing else. -/
structure Recounts (input : List Char) (entries : List TraceEntry) : Prop where
  /-- The scan is announced, and then for each lexeme the recognizers that
  were tried up to the one that read it, and what came of it. -/
  entries_eq : entries = .started "tokenize" :: (Tokenizer.new.scan input).flatMap fun p =>
    p.lexeme.tried.map .started ++ [.happened (.ofPlaced p)]
  /-- The events of the lowest level are the tokens, one by one and in order,
  each with its first byte. -/
  tokens : eventsAt .trace entries = (tokenize input).map fun t => .token t.token t.span.start
  /-- The words of an event name its token, or show the noise, and give that
  byte. -/
  words : ∀ e ∈ events entries, e.Words e.message
  /-- And nothing else has the same words. -/
  told : ∀ e ∈ events entries, ∀ e' : ScanEvent, e'.message = e.message → e' = e
  /-- Those above it are noise: the text that stands in that place, which is
  a point by itself or could not be longer. -/
  noise : ∀ e ∈ eventsAt .debug entries, ∃ before text after,
    e = .noise text (Utf8.size before) ∧ input = before ++ text ++ after ∧
      (text = ['.'] ∨ NoiseRun before text after)
  /-- What the events are about, put together in their order, is the text. -/
  whole : ∃ texts, List.Forall₂ (ScanEvent.About input) (events entries) texts ∧
    texts.flatten = input
  /-- The noise has as many characters as are counted as skipped. -/
  skipped_eq : ((skippedTexts entries).map List.length).sum = skipped input
  /-- Of the noise, all but the points are the runs of the text. -/
  runs : (skippedTexts entries).filter (· ≠ ['.']) = noiseRuns input
  /-- And the points are those that no token holds. -/
  count : (eventsAt .debug entries).length = (noiseRuns input).length + (unheld input).count '.'

/-! ## The recognizers that are tried -/

namespace Lexeme

open Recognizer

namespace Alternative

theorem announced_cons_ok {a : Alternative} {as : List Alternative} {input : List Char}
    {m : Match Lexeme} (h : a.recognize input = .ok m) :
    announced (a :: as) input = a.announces := by
  rw [announced, h]

theorem announced_cons_error {a : Alternative} {as : List Alternative} {input : List Char}
    {t : Trail} (h : a.recognize input = .error t) :
    announced (a :: as) input = a.announces ++ announced as input := by
  rw [announced, h]

end Alternative

/-- What is neither a number nor a symbol is tried as noise, last. -/
theorem announced_of_noise {c : Char} {rest : List Char} {m : Match Unit}
    (hnumber : Numeral.Absent (c :: rest)) (hsymbol : Token.ofGlyph? c = none)
    (h : noise (c :: rest) = .ok m) (text : List Char) :
    Alternative.announced Alternative.inOrder (c :: rest) = tried ⟨text, none⟩ := by
  obtain ⟨t₁, h₁⟩ := number_of_absent hnumber
  obtain ⟨⟨t₂, h₂⟩, t₃, h₃⟩ := symbols_error rest hsymbol
  rw [Alternative.inOrder, Alternative.announced_cons_error (ofToken_error h₁),
    Alternative.announced_cons_error (ofToken_error h₂),
    Alternative.announced_cons_error (ofToken_error h₃),
    Alternative.announced_cons_ok (ofNoise_ok h)]
  rfl

/-- **What is announced for a lexeme** is what is tried for its kind. -/
theorem announced_of_leads {l : Lexeme} {rest : List Char} (h : l.Leads rest) :
    Alternative.announced Alternative.inOrder (l.text ++ rest) = l.tried := by
  cases h with
  | number h =>
    exact Alternative.announced_cons_ok (ofToken_ok (number_of_leads h))
  | @symbol c t _ ht =>
    have hsymbol : Glyph.isSymbol c := Glyph.isSymbol_iff.2 ⟨t, ht⟩
    obtain ⟨t₁, h₁⟩ :=
      number_of_absent (absent_of_not_isNumeric rest (Glyph.isNumeric_of_isSymbol hsymbol))
    rw [List.singleton_append, Alternative.inOrder,
      Alternative.announced_cons_error (ofToken_error h₁)]
    rcases Token.ofGlyph?_eq_some_iff.1 ht with ⟨o, rfl, rfl⟩ | ⟨p, rfl, rfl⟩
    · rw [Alternative.announced_cons_ok (ofToken_ok (operator_glyph o rest))]
      rfl
    · have hother : ∀ o : Operator, (p.glyph :: rest).head? ≠ some o.glyph := by
        intro o
        cases o <;> cases p <;> simp [Operator.glyph, Parenthesis.glyph]
      obtain ⟨t₂, h₂⟩ := operator_error hother
      rw [Alternative.announced_cons_error (ofToken_error h₂),
        Alternative.announced_cons_ok (ofToken_ok (parenthesis_glyph p rest))]
      rfl
  | @noise text _ hne htext hrest =>
    obtain ⟨c, cs, rfl⟩ := List.exists_cons_of_ne_nil hne
    have hc : Glyph.isRecognized c = false := htext c List.mem_cons_self
    simp only [Glyph.isRecognized, Bool.or_eq_false_iff] at hc
    exact announced_of_noise (absent_of_not_isNumeric _ hc.1)
      (Glyph.isSymbol_eq_false_iff.1 hc.2) (noise_run hne htext hrest) _
  | point hrest =>
    exact announced_of_noise (absent_of_stops hrest) rfl (noise_recognized rfl) _

/-! ## Lexemes and the alphabet -/

/-- **A lexeme is of the alphabet or outside it**, as a whole. If it is no
token, it is a point by itself or takes all there is outside. -/
theorem Leads.alphabet_cases {l : Lexeme} {rest : List Char} (h : l.Leads rest) :
    (l.token.isNone = false ∧ ∀ c ∈ l.text, Glyph.isRecognized c) ∨ l = noiseOf '.' ∨
      (l.token.isNone ∧ l.text ≠ [] ∧ (∀ c ∈ l.text, Glyph.isRecognized c = false) ∧
        Stops (fun c => !Glyph.isRecognized c) rest) := by
  cases h with
  | number h => exact .inl ⟨rfl, fun c hc => Glyph.isRecognized_iff.2 (.inl (h.isNumeric c hc))⟩
  | symbol ht =>
    refine .inl ⟨rfl, fun c hc => ?_⟩
    obtain rfl := List.mem_singleton.1 hc
    exact Glyph.isRecognized_iff.2 (.inr (Glyph.isSymbol_iff.2 ⟨_, ht⟩))
  | noise hne htext hrest => exact .inr (.inr ⟨rfl, hne, htext, hrest⟩)
  | point _ => exact .inr (.inl rfl)

/-- So noise outside the alphabet begins only behind a character of it. -/
theorem Leads.isRecognized_getLast? {l : Lexeme} {rest : List Char} (h : l.Leads rest) {d : Char}
    (hd : d ∈ rest.head?) (hout : Glyph.isRecognized d = false) :
    ∀ c ∈ l.text.getLast?, Glyph.isRecognized c := by
  intro c hc
  rcases h.alphabet_cases with ⟨-, hall⟩ | rfl | ⟨-, -, -, hrest⟩
  · exact hall c (List.mem_of_getLast? hc)
  · obtain rfl : '.' = c := by simpa [noiseOf] using hc
    rfl
  · have := hrest d hd
    simp [hout] at this

end Lexeme

open Lexeme

/-! ## The rows of a scan -/

/-- **A scan of a text from a cursor on**: every lexeme leads what is behind
it, and starts where the one before it ends. -/
inductive Scanned : Cursor → List Char → List Placed → Prop
  | nil {c : Cursor} : Scanned c [] []
  | cons {c : Cursor} {l : Lexeme} {rest : List Char} {row : List Placed} : l.Leads rest →
      Scanned (c.past l.text) rest row →
      Scanned c (l.text ++ rest) (⟨l.text ++ rest, l, c, c.past l.text⟩ :: row)

theorem scanned_row (c : Cursor) (input : List Char) :
    Scanned c input (Placed.row c (cut Alternative.inOrder input)) := by
  induction input using text_induction generalizing c with
  | nil => exact cut_nil _ ▸ .nil
  | lead l rest hl ih =>
    rw [cut_of_leads hl]
    exact .cons hl (ih _)

namespace Scanned

variable {c : Cursor} {input : List Char} {row : List Placed}

/-- What is announced for each lexeme of a scan is what is tried for it. -/
theorem announced_eq (h : Scanned c input row) : ∀ p ∈ row,
    Alternative.announced Alternative.inOrder p.ahead = p.lexeme.tried := by
  induction h with
  | nil => simp
  | cons hl _ ih => exact List.forall_mem_cons.2 ⟨announced_of_leads hl, ih⟩

/-- The lexemes of a scan are its text. -/
theorem flatten_texts (h : Scanned c input row) :
    (row.map fun p => p.lexeme.text).flatten = input := by
  induction h with
  | nil => rfl
  | cons _ _ ih => rw [List.map_cons, List.flatten_cons, ih]

/-- **Each lexeme of a scan stands where its text does**, and noise outside
the alphabet takes all there is on both sides. -/
theorem located (h : Scanned c input row) {p : Placed} (hp : p ∈ row) :
    ∃ before after, input = before ++ p.lexeme.text ++ after ∧ p.start = c.past before ∧
      p.stop = p.start.past p.lexeme.text ∧
      (p.lexeme.token.isNone →
        p.lexeme.text = ['.'] ∨ NoiseRun before p.lexeme.text after) := by
  induction h with
  | nil => simp at hp
  | @cons c l rest row hl _ ih =>
    rcases List.mem_cons.1 hp with rfl | hp
    · refine ⟨[], rest, rfl, rfl, rfl, fun hnone => ?_⟩
      rcases hl.alphabet_cases with ⟨hsome, -⟩ | rfl | ⟨-, hne, htext, hrest⟩
      · cases hsome.symm.trans hnone
      · exact .inl rfl
      · refine .inr ⟨hne, htext, by simp, fun d hd => ?_⟩
        simpa using hrest d hd
    · obtain ⟨before, after, rfl, hstart, hstop, hnoise⟩ := ih hp
      refine ⟨l.text ++ before, after, by simp, ?_, hstop, fun hnone => ?_⟩
      · rw [hstart, Cursor.past_append]
      · refine (hnoise hnone).imp_right fun hrun => { hrun with left := fun d hd => ?_ }
        by_cases hbefore : before = []
        · -- the lexeme before this one ends with a character of the alphabet
          obtain ⟨e, es, htext⟩ := List.exists_cons_of_ne_nil hrun.ne_nil
          have he : e ∈ (before ++ p.lexeme.text ++ after).head? := by simp [hbefore, htext]
          rw [hbefore, List.append_nil] at hd
          exact hl.isRecognized_getLast? he (hrun.outside e (by simp [htext])) d hd
        · rw [List.getLast?_append_of_ne_nil _ hbefore] at hd
          exact hrun.left d hd

end Scanned

/-! ## The runs of noise of a text -/

/-- Next to a character of the alphabet no two neighbours are both
outside it. -/
theorem splitBy_joinsNoise_of_recognized {text : List Char} (h : ∀ c ∈ text, Glyph.isRecognized c) :
    text.splitBy joinsNoise = text.map fun c => [c] := by
  induction text with
  | nil => rfl
  | cons c cs ih =>
    have hc := h c List.mem_cons_self
    have happ : ([c] ++ cs).splitBy joinsNoise = [c].splitBy joinsNoise ++ cs.splitBy joinsNoise :=
      List.splitBy_append fun a ha b _ => by
        obtain rfl : c = a := by simpa using ha
        simp [joinsNoise, hc]
    rw [← List.singleton_append, happ, ih fun d hd => h d (List.mem_cons_of_mem _ hd)]
    rfl

/-- A text of the alphabet has no runs of noise. -/
theorem noiseRuns_of_recognized {text : List Char} (h : ∀ c ∈ text, Glyph.isRecognized c) :
    noiseRuns text = [] := by
  rw [noiseRuns, splitBy_joinsNoise_of_recognized h, List.filter_eq_nil_iff]
  intro run hrun
  obtain ⟨c, hc, rfl⟩ := List.mem_map.1 hrun
  simp [h c hc]

/-- A text outside the alphabet is one run of noise. -/
theorem noiseRuns_of_outside {text : List Char} (hne : text ≠ [])
    (h : ∀ c ∈ text, Glyph.isRecognized c = false) : noiseRuns text = [text] := by
  have hchain : text.IsChain fun a b => joinsNoise a b := by
    refine List.Pairwise.isChain (List.pairwise_of_forall_mem_list fun a ha b hb => ?_)
    simp [joinsNoise, h a ha, h b hb]
  rw [noiseRuns, List.splitBy_of_isChain hne hchain, List.filter_eq_self]
  intro run hrun
  obtain rfl := List.mem_singleton.1 hrun
  simpa using h

/-- **The runs of noise behind a lexeme** are those of the rest, and no run
goes across its end. -/
theorem noiseRuns_of_leads {l : Lexeme} {rest : List Char} (h : l.Leads rest) :
    noiseRuns (l.text ++ rest) = noiseRuns l.text ++ noiseRuns rest := by
  have hsplit : (l.text ++ rest).splitBy joinsNoise =
      l.text.splitBy joinsNoise ++ rest.splitBy joinsNoise := by
    -- the last character of the lexeme and the one behind it are never both noise
    refine List.splitBy_append fun a ha b hb => ?_
    cases hout : Glyph.isRecognized b with
    | true => simp [joinsNoise, hout]
    | false => simp [joinsNoise, h.isRecognized_getLast? hb hout a ha]
  rw [noiseRuns, hsplit, List.filter_append]
  rfl

/-- **What a lexeme has of noise**: a token none, a point by itself no run,
and all else is one run, with no point in it. -/
theorem Lexeme.Leads.noise_cases {l : Lexeme} {rest : List Char} (h : l.Leads rest) :
    (l.token.isNone = false ∧ noiseRuns l.text = []) ∨ l = noiseOf '.' ∨
      (l.token.isNone ∧ '.' ∉ l.text ∧ noiseRuns l.text = [l.text]) := by
  rcases h.alphabet_cases with ⟨hsome, hall⟩ | hpoint | ⟨hnone, hne, htext, -⟩
  · exact .inl ⟨hsome, noiseRuns_of_recognized hall⟩
  · exact .inr (.inl hpoint)
  · refine .inr (.inr ⟨hnone, fun hpoint => ?_, noiseRuns_of_outside hne htext⟩)
    have := htext '.' hpoint
    cases this

/-! ## The noise of a row -/

/-- The texts of the noise in a row, in order. -/
def noiseTexts (row : List Placed) : List (List Char) :=
  (row.filter fun p => p.lexeme.token.isNone).map fun p => p.lexeme.text

theorem noiseTexts_cons (p : Placed) (row : List Placed) : noiseTexts (p :: row) =
    (if p.lexeme.token.isNone then [p.lexeme.text] else []) ++ noiseTexts row := by
  rw [noiseTexts, List.filter_cons]
  split <;> rfl

/-- A row skips as many characters as its noise has. -/
theorem sum_length_noiseTexts (row : List Placed) :
    ((noiseTexts row).map List.length).sum = (row.map Placed.skipped).foldr (· + ·) 0 := by
  induction row with
  | nil => rfl
  | cons p row ih =>
    rw [noiseTexts_cons, List.map_append, List.sum_append, ih, List.map_cons, List.foldr_cons,
      Placed.skipped]
    split <;> simp

/-- Noise cut finer is the same noise. -/
theorem texts_filter_shred (l : Lexeme) :
    texts (l.shred.filter fun m => m.token.isNone) = if l.token.isNone then l.text else [] := by
  unfold shred
  split
  · next h =>
    -- every piece of noise is noise again
    have hall : (l.text.map noiseOf).filter (fun m => m.token.isNone) = l.text.map noiseOf := by
      refine List.filter_eq_self.2 fun m hm => ?_
      obtain ⟨c, -, rfl⟩ := List.mem_map.1 hm
      rfl
    rw [hall, texts_noise]
  · next h => simp [h]

namespace Scanned

variable {c : Cursor} {input : List Char} {row : List Placed}

/-- **The noise of a scan is its pieces that are no token.** -/
theorem flatten_noiseTexts (h : Scanned c input row) :
    (noiseTexts row).flatten = texts ((pieces input).filter fun l => l.token.isNone) := by
  induction h with
  | nil => simp [noiseTexts]
  | cons hl _ ih =>
    rw [noiseTexts_cons, List.flatten_append, ih, pieces_of_leads hl, List.filter_append,
      texts_append, texts_filter_shred]
    split <;> simp

/-- **But for the points, the noise of a scan is the runs of its text.** -/
theorem filter_noiseTexts (h : Scanned c input row) :
    (noiseTexts row).filter (· ≠ ['.']) = noiseRuns input := by
  induction h with
  | nil => rfl
  | cons hl _ ih =>
    rw [noiseTexts_cons, List.filter_append, ih, noiseRuns_of_leads hl]
    congr 1
    rcases hl.noise_cases with ⟨hnone, hruns⟩ | rfl | ⟨hnone, hpoint, hruns⟩
    · simp [hnone, hruns]
    · rfl
    · rw [if_pos hnone, hruns, List.filter_eq_self]
      intro text htext
      obtain rfl := List.mem_singleton.1 htext
      refine decide_eq_true fun heq => ?_
      rw [heq] at hpoint
      exact hpoint (List.mem_singleton_self _)

/-- So there is as much of it as there are runs and points. -/
theorem length_noiseTexts (h : Scanned c input row) :
    (noiseTexts row).length = (noiseRuns input).length + (noiseTexts row).flatten.count '.' := by
  induction h with
  | nil => rfl
  | cons hl _ ih =>
    rw [noiseTexts_cons, List.length_append, ih, noiseRuns_of_leads hl, List.length_append,
      List.flatten_append, List.count_append]
    rcases hl.noise_cases with ⟨hnone, hruns⟩ | rfl | ⟨hnone, hpoint, hruns⟩
    · simp [hnone, hruns]
    · -- a point by itself is no run, and is counted as a point
      show 1 + (_ + _) = 0 + _ + (1 + _)
      omega
    · rw [if_pos hnone, hruns, List.flatten_singleton, List.count_eq_zero.2 hpoint]
      show 1 + (_ + _) = 1 + _ + (0 + _)
      omega

end Scanned

/-- The characters that no token holds are the noise of a scan. -/
theorem unheld_eq (input : List Char) :
    unheld input = texts ((pieces input).filter fun l => l.token.isNone) := by
  have hrow := filterMap_range_spans .start (pieces input)
  rw [texts_pieces, ← tokenize_eq_spans] at hrow
  simpa [unheld, holders] using hrow

/-! ## The events of a row -/

/-- Of the entries of a lexeme one is an event, the last. -/
theorem Placed.events_trace (p : Placed) : TraceEntry.events p.trace = [.ofPlaced p] := by
  have hstarted : ∀ names : List String,
      (names.map TraceEntry.started).filterMap TraceEntry.event? = [] := fun names => by
    rw [List.filterMap_map]
    exact List.filterMap_eq_nil_iff.2 fun _ _ => rfl
  rw [TraceEntry.events, Placed.trace, List.filterMap_append, hstarted]
  rfl

/-- **The events of a trace are those of its lexemes**, one for each. -/
theorem events_trace (input : List Char) :
    TraceEntry.events (trace input) = (Tokenizer.new.scan input).map .ofPlaced := by
  have hrow : ∀ row : List Placed,
      TraceEntry.events (row.flatMap Placed.trace) = row.map .ofPlaced := by
    intro row
    induction row with
    | nil => rfl
    | cons p row ih =>
      have happ : TraceEntry.events (p.trace ++ row.flatMap Placed.trace) =
          TraceEntry.events p.trace ++ TraceEntry.events (row.flatMap Placed.trace) :=
        List.filterMap_append
      rw [List.flatMap_cons, happ, ih, Placed.events_trace]
      rfl
  exact hrow (Tokenizer.new.scan input)

/-- Those of the lowest level are of the tokens. -/
theorem filter_ofPlaced_trace (row : List Placed) :
    (row.map ScanEvent.ofPlaced).filter (fun e => e.level = .trace) =
      (row.filterMap Placed.tokenSpan?).map fun t => .token t.token t.span.start := by
  induction row with
  | nil => rfl
  | cons p row ih =>
    rw [List.map_cons, List.filter_cons, ih, List.filterMap_cons, ScanEvent.ofPlaced,
      Placed.tokenSpan?]
    cases p.lexeme.token <;> rfl

/-- And those above it of the noise. -/
theorem filter_ofPlaced_debug (row : List Placed) :
    (row.map ScanEvent.ofPlaced).filter (fun e => e.level = .debug) =
      (row.filter fun p => p.lexeme.token.isNone).map fun p =>
        .noise p.lexeme.text p.start.offset := by
  induction row with
  | nil => rfl
  | cons p row ih =>
    rw [List.map_cons, List.filter_cons, ih, List.filter_cons, ScanEvent.ofPlaced]
    cases p.lexeme.token <;> rfl

theorem skippedTexts_trace (input : List Char) :
    TraceEntry.skippedTexts (trace input) = noiseTexts (Tokenizer.new.scan input) := by
  rw [TraceEntry.skippedTexts, TraceEntry.eventsAt, events_trace, filter_ofPlaced_debug,
    List.filterMap_map, noiseTexts, ← List.filterMap_eq_map]
  rfl

/-- A placed lexeme that is a token is one of the tokens that are found. -/
theorem mem_tokenize_of_mem_scan {input : List Char} {p : Placed} {t : Token}
    (hp : p ∈ Tokenizer.new.scan input) (ht : p.lexeme.token = some t) :
    ⟨t, .between p.start p.stop⟩ ∈ tokenize input := by
  have hspan : p.tokenSpan? = some ⟨t, .between p.start p.stop⟩ := by
    rw [Placed.tokenSpan?, ht]
    rfl
  exact List.mem_filterMap.2 ⟨p, hp, hspan⟩

/-- So a token that is told has no sign, and is a number if its kind says
so. -/
theorem unsigned_of_mem_events {input : List Char} {t : Token} {offset : Nat}
    (h : .token t offset ∈ TraceEntry.events (trace input)) : t.Unsigned := by
  rw [events_trace] at h
  obtain ⟨p, hp, hevent⟩ := List.mem_map.1 h
  cases htoken : p.lexeme.token with
  | none =>
    rw [ScanEvent.ofPlaced, htoken] at hevent
    cases hevent
  | some u =>
    rw [ScanEvent.ofPlaced, htoken] at hevent
    obtain ⟨rfl, -⟩ := ScanEvent.token.inj hevent
    exact unsigned_of_mem_tokenize (mem_tokenize_of_mem_scan hp htoken)

/-- **A trace tells exactly what its scan did**, for every text. -/
theorem recounts_trace (input : List Char) : Recounts input (trace input) := by
  have hscan : Scanned .start input (Tokenizer.new.scan input) := scanned_row .start input
  have htokens : TraceEntry.eventsAt .trace (trace input) =
      (tokenize input).map fun t => .token t.token t.span.start := by
    rw [TraceEntry.eventsAt, events_trace, filter_ofPlaced_trace]
    rfl
  have hnoise : TraceEntry.eventsAt .debug (trace input) =
      ((Tokenizer.new.scan input).filter fun p => p.lexeme.token.isNone).map fun p =>
        .noise p.lexeme.text p.start.offset := by
    rw [TraceEntry.eventsAt, events_trace, filter_ofPlaced_debug]
  constructor
  case entries_eq =>
    have hrow : (Tokenizer.new.scan input).flatMap Placed.trace =
        (Tokenizer.new.scan input).flatMap fun p =>
          p.lexeme.tried.map .started ++ [.happened (.ofPlaced p)] :=
      List.flatMap_congr fun p hp => by rw [Placed.trace, hscan.announced_eq p hp]
    rw [trace, hrow]
  case tokens => exact htokens
  case words => exact fun e _ => e.words_message
  case told =>
    intro e he e' hsame
    have hwords : e'.Words e.message := hsame ▸ e'.words_message
    rcases hwords.unique e.words_message with h | ⟨v, w, n, -, rfl, -, hnan⟩
    · exact h
    · -- a scan finds nothing that is no number
      have hnumber := (unsigned_of_mem_events he w rfl).2
      rw [hnumber] at hnan
      cases hnan
  case noise =>
    intro e he
    rw [hnoise] at he
    obtain ⟨p, hp, rfl⟩ := List.mem_map.1 he
    obtain ⟨hp, hnone⟩ := List.mem_filter.1 hp
    obtain ⟨before, after, hinput, hstart, -, hrun⟩ := hscan.located hp
    refine ⟨before, p.lexeme.text, after, ?_, hinput, hrun hnone⟩
    rw [hstart, Cursor.offset_past, Cursor.offset_start, Nat.zero_add]
  case whole =>
    refine ⟨(Tokenizer.new.scan input).map fun p => p.lexeme.text, ?_, hscan.flatten_texts⟩
    rw [events_trace, List.forall₂_map_left_iff, List.forall₂_map_right_iff, List.forall₂_same]
    intro p hp
    obtain ⟨before, after, hinput, hstart, hstop, -⟩ := hscan.located hp
    have hoffset : p.start.offset = Utf8.size before := by
      rw [hstart, Cursor.offset_past, Cursor.offset_start, Nat.zero_add]
    -- noise is told with its text, a token only with its place
    cases htoken : p.lexeme.token with
    | none =>
      rw [ScanEvent.ofPlaced, htoken, hoffset]
      exact .noise hinput
    | some t =>
      have hmem := mem_tokenize_of_mem_scan hp htoken
      have hend : p.stop.offset = Utf8.size (before ++ p.lexeme.text) := by
        rw [hstop, Cursor.offset_past, hoffset, Utf8.size_append]
      rw [ScanEvent.ofPlaced, htoken]
      exact .token hmem hinput hoffset hend
  case skipped_eq =>
    rw [skippedTexts_trace, sum_length_noiseTexts]
    rfl
  case runs => rw [skippedTexts_trace, hscan.filter_noiseTexts]
  case count =>
    have hlength : (TraceEntry.eventsAt .debug (trace input)).length =
        (noiseTexts (Tokenizer.new.scan input)).length := by
      rw [hnoise, noiseTexts, List.length_map, List.length_map]
    rw [hlength, hscan.length_noiseTexts, hscan.flatten_noiseTexts, unheld_eq]

end Abacus
