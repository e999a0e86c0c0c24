import Abacus.Proofs.Pieces
import Abacus.Tokenizer
import Abacus.Text.Utf8
import Mathlib.Data.List.DropRight

/-!
# Places — where the tokens of a row stand

A scan is a row of lexemes set one after another from the start. The file
says where a cursor is behind a text (`Cursor.past_start`), and reads the
tokens, their spans and the skipped characters of a scan off the finest
cut of its text (`tokenize_eq_spans`, `skipped_eq_skips`), since cutting
noise finer moves no token and skips no character twice.
-/

namespace Abacus

namespace Utf8

@[simp] theorem size_nil : size [] = 0 := rfl

@[simp] theorem size_cons (c : Char) (cs : List Char) : size (c :: cs) = c.utf8Size + size cs := rfl

/-- Sizes of texts in a row add up. -/
@[simp] theorem size_append (a b : List Char) : size (a ++ b) = size a + size b := by
  induction a with
  | nil => simp
  | cons c cs ih =>
    rw [List.cons_append, size_cons, ih, size_cons]
    omega

/-- No character is without a byte. -/
theorem size_pos {text : List Char} (h : text ≠ []) : 0 < size text := by
  obtain ⟨c, cs, rfl⟩ := List.exists_cons_of_ne_nil h
  have := c.utf8Size_pos
  rw [size_cons]
  omega

/-- A text of one-byte characters has as many bytes as characters. -/
theorem size_eq_length {text : List Char} (h : ∀ c ∈ text, c.utf8Size = 1) :
    size text = text.length := by
  induction text with
  | nil => rfl
  | cons c cs ih =>
    rw [size_cons, h c List.mem_cons_self, ih fun d hd => h d (List.mem_cons_of_mem c hd),
      List.length_cons, Nat.add_comm]

/-- A text is cut behind a front of it by counting the bytes of that. -/
theorem split?_size (front back : List Char) :
    split? (size front) (front ++ back) = some (front, back) := by
  induction front with
  | nil => rw [size_nil, List.nil_append, split?]
  | cons c cs ih =>
    have hpos := c.utf8Size_pos
    obtain ⟨n, hn⟩ : ∃ n, size (c :: cs) = n + 1 := ⟨size (c :: cs) - 1, by rw [size_cons]; omega⟩
    have hrest : n + 1 - c.utf8Size = size cs := by rw [← hn, size_cons]; omega
    rw [hn, List.cons_append, split?, if_pos (by rw [← hn, size_cons]; omega), hrest, ih]
    rfl

end Utf8

namespace Cursor

/-- A cursor counts the bytes that it passes. -/
@[simp] theorem offset_advance (c : Cursor) (ch : Char) :
    (c.advance ch).offset = c.offset + ch.utf8Size := by
  unfold advance
  split <;> rfl

@[simp] theorem offset_start : start.offset = 0 := rfl

/-- A cursor moves on by the bytes of the text. -/
@[simp] theorem offset_past (c : Cursor) (text : List Char) :
    (c.past text).offset = c.offset + Utf8.size text := by
  induction text generalizing c with
  | nil => simp
  | cons ch cs ih =>
    rw [past_cons, ih, offset_advance, Utf8.size_cons]
    omega

/-- **Where a text ends**: behind all its bytes, on the line of its last
newline, and there behind the characters that follow that newline. -/
theorem past_start (text : List Char) : start.past text =
    ⟨Utf8.size text, 1 + text.count '\n', 1 + (text.rtakeWhile (· != '\n')).length⟩ := by
  -- from the end, since it is the last newline that counts
  induction text using List.reverseRecOn with
  | nil => rfl
  | append_singleton text c ih =>
    rw [past_append, ih, past_cons, past_nil, advance]
    by_cases hc : c = '\n'
    · subst hc
      simp [Nat.add_assoc]
    · simp [hc, Nat.add_assoc]

end Cursor

namespace Lexeme

/-- The token of a lexeme that starts at a cursor, with its span. -/
def tokenSpan? (c : Cursor) (l : Lexeme) : Option TokenSpan :=
  l.token.map fun t => ⟨t, .between c (c.past l.text)⟩

/-- **The tokens of a row of lexemes** from a cursor on, with their spans. -/
def spans : Cursor → List Lexeme → List TokenSpan
  | _, [] => []
  | c, l :: ls => (l.tokenSpan? c).toList ++ spans (c.past l.text) ls

/-- The characters that a row of lexemes skips. -/
def skips : List Lexeme → Nat
  | [] => 0
  | l :: ls => (if l.token.isNone then l.text.length else 0) + skips ls

@[simp] theorem spans_nil (c : Cursor) : spans c [] = [] := rfl

@[simp] theorem spans_cons (c : Cursor) (l : Lexeme) (ls : List Lexeme) :
    spans c (l :: ls) = (l.tokenSpan? c).toList ++ spans (c.past l.text) ls := rfl

/-- Spans of lexemes in a row, those behind from the cursor behind those before. -/
theorem spans_append (c : Cursor) (xs ys : List Lexeme) :
    spans c (xs ++ ys) = spans c xs ++ spans (c.past (texts xs)) ys := by
  induction xs generalizing c with
  | nil => simp
  | cons x xs ih =>
    rw [List.cons_append, spans_cons, ih, spans_cons, texts_cons, Cursor.past_append,
      List.append_assoc]

@[simp] theorem skips_nil : skips [] = 0 := rfl

@[simp] theorem skips_cons (l : Lexeme) (ls : List Lexeme) :
    skips (l :: ls) = (if l.token.isNone then l.text.length else 0) + skips ls := rfl

/-- What is skipped adds up. -/
@[simp] theorem skips_append (xs ys : List Lexeme) : skips (xs ++ ys) = skips xs + skips ys := by
  induction xs with
  | nil => simp
  | cons x xs ih =>
    rw [List.cons_append, skips_cons, ih, skips_cons]
    omega

/-! ## Noise holds no token, and all of it is skipped -/

/-- Noise has no spans, character by character, -/
@[simp] theorem spans_noise (c : Cursor) (text : List Char) : spans c (text.map noiseOf) = [] := by
  induction text generalizing c with
  | nil => rfl
  | cons ch cs ih => simp [tokenSpan?, noiseOf, ih]

/-- and all of it is skipped. -/
@[simp] theorem skips_noise (text : List Char) : skips (text.map noiseOf) = text.length := by
  induction text with
  | nil => rfl
  | cons ch cs ih =>
    rw [List.map_cons, skips_cons, ih]
    simp [noiseOf, Nat.add_comm]

/-- Cutting noise finer moves no token. -/
theorem spans_shred (c : Cursor) (l : Lexeme) : spans c l.shred = (l.tokenSpan? c).toList := by
  unfold shred
  split
  · next h => simp [tokenSpan?, Option.isNone_iff_eq_none.1 h]
  · simp

/-- And skips the same characters. -/
theorem skips_shred (l : Lexeme) :
    skips l.shred = if l.token.isNone then l.text.length else 0 := by
  unfold shred
  split
  · simp
  · next h => simp [h]

/-! ## Where the tokens of a row are -/

/-- **A span is that of one lexeme**, at the cursor behind those before it. -/
theorem mem_spans_iff {c : Cursor} {ls : List Lexeme} {t : TokenSpan} :
    t ∈ spans c ls ↔
      ∃ xs l ys, ls = xs ++ l :: ys ∧ l.tokenSpan? (c.past (texts xs)) = some t := by
  induction ls generalizing c with
  | nil => simp
  | cons l ls ih =>
    rw [spans_cons, List.mem_append, Option.mem_toList, ih]
    constructor
    · rintro (h | ⟨xs, m, ys, rfl, h⟩)
      · exact ⟨[], l, ls, rfl, h⟩
      · exact ⟨l :: xs, m, ys, rfl, by rw [texts_cons, Cursor.past_append]; exact h⟩
    · rintro ⟨xs, m, ys, hls, h⟩
      cases xs with
      | nil =>
        obtain ⟨rfl, rfl⟩ := List.cons.inj hls
        exact .inl h
      | cons x xs =>
        obtain ⟨rfl, rfl⟩ := List.cons.inj hls
        rw [texts_cons, Cursor.past_append] at h
        exact .inr ⟨xs, m, ys, rfl, h⟩

/-- A token starts where its lexeme does and ends behind its text. -/
theorem span_of_tokenSpan? {c : Cursor} {l : Lexeme} {t : TokenSpan}
    (h : l.tokenSpan? c = some t) :
    t.span.start = c.offset ∧ t.span.stop = c.offset + Utf8.size l.text ∧
      l.token = some t.token := by
  rw [tokenSpan?, Option.map_eq_some_iff] at h
  obtain ⟨tok, htok, rfl⟩ := h
  exact ⟨rfl, Cursor.offset_past c l.text, htok⟩

/-- The tokens of a row stand between its ends. -/
theorem bounds_of_mem_spans {c : Cursor} {ls : List Lexeme} {t : TokenSpan}
    (h : t ∈ spans c ls) :
    c.offset ≤ t.span.start ∧ t.span.stop ≤ c.offset + Utf8.size (texts ls) := by
  obtain ⟨xs, l, ys, rfl, ht⟩ := mem_spans_iff.1 h
  obtain ⟨hstart, hstop, -⟩ := span_of_tokenSpan? ht
  rw [Cursor.offset_past] at hstart hstop
  rw [texts_append, texts_cons, Utf8.size_append, Utf8.size_append]
  omega

/-- **Spans stand in order and apart.** -/
theorem pairwise_spans (c : Cursor) (ls : List Lexeme) :
    (spans c ls).Pairwise fun a b => a.span.stop ≤ b.span.start := by
  induction ls generalizing c with
  | nil => exact .nil
  | cons l ls ih =>
    rw [spans_cons, List.pairwise_append]
    refine ⟨by cases l.tokenSpan? c <;> simp, ih _, fun a ha b hb => ?_⟩
    obtain ⟨-, hstop, -⟩ := span_of_tokenSpan? (Option.mem_toList.1 ha)
    have hstart := (bounds_of_mem_spans hb).1
    rw [Cursor.offset_past] at hstart
    omega

/-! ## A scan is read off the finest cut -/

/-- What a scan finds are the spans of its lexemes, -/
theorem filterMap_row (c : Cursor) (cuts : List (List Char × Lexeme)) :
    (Placed.row c cuts).filterMap Placed.tokenSpan? =
      spans c (cuts.flatMap fun p => p.2.shred) := by
  induction cuts generalizing c with
  | nil => rfl
  | cons p ps ih =>
    obtain ⟨ahead, l⟩ := p
    rw [List.flatMap_cons, spans_append, spans_shred, texts_shred, ← ih, Placed.row,
      List.filterMap_cons]
    -- a token leaves one span and noise leaves none
    cases h : l.token <;> simp [Placed.tokenSpan?, tokenSpan?, h]

/-- and what it skips is what they skip. -/
theorem sum_skipped_row (c : Cursor) (cuts : List (List Char × Lexeme)) :
    ((Placed.row c cuts).map Placed.skipped).foldr (· + ·) 0 =
      skips (cuts.flatMap fun p => p.2.shred) := by
  induction cuts generalizing c with
  | nil => rfl
  | cons p ps ih =>
    obtain ⟨ahead, l⟩ := p
    rw [List.flatMap_cons, skips_append, skips_shred, ← ih (c.past l.text), Placed.row,
      List.map_cons, List.foldr_cons]
    rfl

end Lexeme

open Lexeme

/-- **The tokens of a text are those of its finest cut.** -/
theorem tokenize_eq_spans (input : List Char) : tokenize input = spans .start (pieces input) :=
  filterMap_row .start (cut Alternative.inOrder input)

/-- Noise behind a text leaves its tokens as they are. -/
theorem tokenize_append_noise (text : List Char) {noise : List Char}
    (h : ∀ c ∈ noise, Glyph.isRecognized c = false) : tokenize (text ++ noise) = tokenize text := by
  have hstop : Stops Glyph.isNumeric noise := fun c hc =>
    Glyph.isNumeric_of_not_isRecognized (h c (List.mem_of_mem_head? hc))
  have hnoise : pieces noise = noise.map noiseOf := by
    simpa using pieces_noise_append h []
  rw [tokenize_eq_spans, pieces_append text hstop, spans_append, hnoise, spans_noise,
    List.append_nil, ← tokenize_eq_spans]

/-- **So are the characters it skips.** -/
theorem skipped_eq_skips (input : List Char) : skipped input = skips (pieces input) := by
  have := sum_skipped_row .start (cut Alternative.inOrder input)
  rw [skipped, Tokenizer.tokenize, Tokenizer.after, Tokenizer.scan, Tokenizer.scanBy]
  simpa [Tokenizer.reset, Tokenizer.new, pieces] using this

/-- And the tokens without their spans. -/
theorem parse_eq_filterMap (input : List Char) :
    parse input = (pieces input).filterMap Lexeme.token := by
  have hmap : ∀ (c : Cursor) (ls : List Lexeme),
      (spans c ls).map TokenSpan.token = ls.filterMap Lexeme.token := by
    intro c ls
    induction ls generalizing c with
    | nil => rfl
    | cons l ls ih =>
      rw [spans_cons, List.map_append, ih, List.filterMap_cons]
      cases h : l.token <;> simp [tokenSpan?, h]
  rw [parse, tokenize_eq_spans, hmap]

/-- The spans of a text begin and end between its characters, and none is
empty. -/
theorem span_of_mem_tokenize {input : List Char} {t : TokenSpan} (h : t ∈ tokenize input) :
    ∃ before text after, input = before ++ text ++ after ∧ text ≠ [] ∧
      t.span.start = Utf8.size before ∧ t.span.stop = Utf8.size (before ++ text) := by
  rw [tokenize_eq_spans] at h
  obtain ⟨xs, l, ys, hls, ht⟩ := mem_spans_iff.1 h
  have hne : l.text ≠ [] := (fits_of_pieces hls).ne_nil
  have hinput : input = texts xs ++ l.text ++ texts ys := by
    rw [← texts_pieces input, hls, texts_append, texts_cons, List.append_assoc]
  obtain ⟨hstart, hstop, -⟩ := span_of_tokenSpan? ht
  rw [Cursor.offset_past, Cursor.offset_start, Nat.zero_add] at hstart hstop
  refine ⟨texts xs, l.text, texts ys, hinput, hne, hstart, ?_⟩
  rw [hstop, Utf8.size_append]

/-- So no token of a text is empty or goes past its end. -/
theorem bounds_of_mem_tokenize {input : List Char} {t : TokenSpan} (h : t ∈ tokenize input) :
    t.span.start < t.span.stop ∧ t.span.stop ≤ Utf8.size input := by
  obtain ⟨before, text, after, rfl, hne, hstart, hstop⟩ := span_of_mem_tokenize h
  have hpos := Utf8.size_pos hne
  rw [Utf8.size_append] at hstop
  rw [Utf8.size_append, Utf8.size_append]
  omega

/-- A number among the pieces is a token at the place of its text. -/
theorem exists_mem_tokenize {input text : List Char} {xs ys : List Lexeme}
    (h : pieces input = xs ++ ofNumeral text :: ys) :
    ∃ t ∈ tokenize input, t.token.isNumber ∧ t.span.start = Utf8.size (texts xs) ∧
      t.span.stop = Utf8.size (texts xs) + Utf8.size text := by
  let t : TokenSpan := ⟨.number (Numeral.value text),
    .between (Cursor.start.past (texts xs)) ((Cursor.start.past (texts xs)).past text)⟩
  have ht : (ofNumeral text).tokenSpan? (Cursor.start.past (texts xs)) = some t := rfl
  refine ⟨t, ?_, rfl, ?_, ?_⟩
  · rw [tokenize_eq_spans]
    exact mem_spans_iff.2 ⟨xs, _, ys, h, ht⟩
  · simp [t, Span.between, Cursor.start]
  · simp [t, Span.between, Cursor.start]

end Abacus
