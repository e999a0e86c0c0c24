import Abacus.Proofs.Blocks

/-!
# Seams — the scan of a text put together from others

A row of lexemes makes the same tokens wherever its text starts, only
their places move, and `Span.rebase` says how (`spans_past`). So where the
pieces of a text part, its scan is put together from the scans of both
sides. They part at whatever may not stand inside a number
(`tokenize_separated`), and at every place that is not inside the span of
a number (`pieces_parted`), where noise can be put in or taken out and
nothing but places change (`tokenize_noise_between`).
-/

namespace Abacus

/-! ## Moving the start of a text -/

/-- A place in a text, seen from a longer text in which that one starts at
a cursor. Only the first line shares its columns with what stands before. -/
def Cursor.rebase (c d : Cursor) : Cursor :=
  if d.line = 1 then ⟨c.offset + d.offset, c.line, c.column + d.column - 1⟩
  else ⟨c.offset + d.offset, c.line + d.line - 1, d.column⟩

/-- A span of a text, seen from such a longer text. -/
def Span.rebase (c : Cursor) (s : Span) : Span :=
  if s.line = 1 then ⟨c.offset + s.start, c.offset + s.stop, c.line, c.column + s.column - 1⟩
  else ⟨c.offset + s.start, c.offset + s.stop, c.line + s.line - 1, s.column⟩

/-- A token of a text, seen from such a longer text. -/
def TokenSpan.rebase (c : Cursor) (t : TokenSpan) : TokenSpan := ⟨t.token, t.span.rebase c⟩

namespace Cursor

@[simp] theorem offset_rebase (c d : Cursor) : (c.rebase d).offset = c.offset + d.offset := by
  unfold rebase
  split <;> rfl

theorem advance_rebase (c : Cursor) {d : Cursor} (hline : 1 ≤ d.line) (hcolumn : 1 ≤ d.column)
    (ch : Char) : (c.rebase d).advance ch = c.rebase (d.advance ch) := by
  by_cases hch : ch = '\n'
  · have hpos : d.line ≠ 0 := by omega
    have hlines : c.line + (d.line + 1) - 1 = c.line + d.line - 1 + 1 := by omega
    by_cases hfirst : d.line = 1
    · simp [advance, rebase, hch, hfirst, Nat.add_assoc]
    · simp [advance, rebase, hch, hfirst, hpos, hlines, Nat.add_assoc]
  · have hcolumns : c.column + (d.column + 1) - 1 = c.column + d.column - 1 + 1 := by omega
    by_cases hfirst : d.line = 1
    · simp [advance, rebase, hch, hfirst, hcolumns, Nat.add_assoc]
    · simp [advance, rebase, hch, hfirst, Nat.add_assoc]

/-- **A text takes a cursor as far as it takes the start**, seen from
there. -/
theorem past_eq_rebase (c : Cursor) (text : List Char) :
    c.past text = c.rebase (start.past text) := by
  -- from the end, as the last newline decides which columns move
  induction text using List.reverseRecOn with
  | nil => simp [rebase, start]
  | append_singleton text ch ih =>
    have hline : 1 ≤ (start.past text).line := by
      rw [past_start]
      exact Nat.le_add_right ..
    have hcolumn : 1 ≤ (start.past text).column := by
      rw [past_start]
      exact Nat.le_add_right ..
    rw [past_append, past_append, ih, past_cons, past_cons, past_nil, past_nil,
      advance_rebase c hline hcolumn]

end Cursor

theorem Span.between_rebase (c a b : Cursor) :
    Span.between (c.rebase a) (c.rebase b) = (Span.between a b).rebase c := by
  rw [Span.between, Cursor.offset_rebase, Cursor.offset_rebase, Span.between, Span.rebase,
    Cursor.rebase]
  split <;> rfl

namespace Lexeme

theorem tokenSpan?_past (c : Cursor) (before : List Char) (l : Lexeme) :
    l.tokenSpan? (c.past before) =
      (l.tokenSpan? (Cursor.start.past before)).map (TokenSpan.rebase c) := by
  have hspan : Span.between (c.past before) ((c.past before).past l.text) =
      (Span.between (Cursor.start.past before)
        ((Cursor.start.past before).past l.text)).rebase c := by
    rw [← Cursor.past_append, ← Cursor.past_append, Cursor.past_eq_rebase c before,
      Cursor.past_eq_rebase c (before ++ l.text), Span.between_rebase]
  rw [tokenSpan?, tokenSpan?, hspan, Option.map_map]
  rfl

/-- **A row makes the same tokens wherever it starts**, and all their spans
move alike. -/
theorem spans_past (c : Cursor) (before : List Char) (ls : List Lexeme) :
    spans (c.past before) ls = (spans (Cursor.start.past before) ls).map (TokenSpan.rebase c) := by
  induction ls generalizing before with
  | nil => rfl
  | cons l ls ih =>
    have hrest := ih (before ++ l.text)
    rw [Cursor.past_append, Cursor.past_append] at hrest
    rw [spans_cons, spans_cons, hrest, tokenSpan?_past, List.map_append]
    cases l.tokenSpan? (Cursor.start.past before) <;> rfl

/-- The tokens of a text that starts at a cursor. -/
theorem spans_pieces (c : Cursor) (input : List Char) :
    spans c (pieces input) = (tokenize input).map (TokenSpan.rebase c) := by
  rw [tokenize_eq_spans]
  exact spans_past c [] (pieces input)

end Lexeme

open Lexeme

/-! ## Across a separator -/

/-- **What keeps the texts on both sides of it apart**: one glyph, or noise
outside the alphabet. -/
inductive Lexeme.Separates : Lexeme → Prop
  /-- One glyph, which is a token. -/
  | glyph {c : Char} {t : Token} : Token.ofGlyph? c = some t → Separates ⟨[c], some t⟩
  /-- Characters outside the alphabet, which are none. -/
  | noise {text : List Char} : text ≠ [] → (∀ c ∈ text, Glyph.isRecognized c = false) →
      Separates ⟨text, none⟩

namespace Lexeme

/-- No number goes on into a separator. -/
theorem Separates.stops {l : Lexeme} (h : l.Separates) (rest : List Char) :
    Stops Glyph.isNumeric (l.text ++ rest) := by
  cases h with
  | glyph ht =>
    exact Stops.cons.2 (Glyph.isNumeric_of_isSymbol (Glyph.isSymbol_iff.2 ⟨_, ht⟩))
  | @noise text hne hnot =>
    obtain ⟨c, cs, rfl⟩ := List.exists_cons_of_ne_nil hne
    exact Stops.cons.2 (Glyph.isNumeric_of_not_isRecognized (hnot c List.mem_cons_self))

/-- A separator is cut off what follows it. -/
theorem Separates.pieces {l : Lexeme} (h : l.Separates) (rest : List Char) :
    pieces (l.text ++ rest) = l.shred ++ Lexeme.pieces rest := by
  cases h with
  | glyph ht => exact pieces_symbol_cons ht rest
  | noise _ hnot => exact pieces_noise_append hnot rest

/-- **Both sides of a separator are cut as by themselves.** -/
theorem Separates.pieces_append {l : Lexeme} (h : l.Separates) (a b : List Char) :
    Lexeme.pieces (a ++ l.text ++ b) = Lexeme.pieces a ++ l.shred ++ Lexeme.pieces b := by
  rw [List.append_assoc, Lexeme.pieces_append a (h.stops b), h.pieces, List.append_assoc]

/-- The pieces of a separator by itself. -/
theorem Separates.pieces_text {l : Lexeme} (h : l.Separates) : Lexeme.pieces l.text = l.shred := by
  have := h.pieces []
  rwa [List.append_nil, pieces_nil, List.append_nil] at this

end Lexeme

/-- **A separator makes the scan of a text that of its sides.** Behind the
tokens of the first come that of the separator, if it is one, and those of
the second from where the separator ends. -/
theorem tokenize_separated {l : Lexeme} (h : l.Separates) (a b : List Char) :
    tokenize (a ++ l.text ++ b) =
        tokenize a ++ (l.token.map fun t => ⟨t, .behind a l.text⟩).toList ++
          (tokenize b).map (TokenSpan.rebase (Cursor.start.past (a ++ l.text))) ∧
      skipped (a ++ l.text ++ b) =
        skipped a + skipped b + (if l.token.isNone then l.text.length else 0) ∧
      parse (a ++ l.text ++ b) = parse a ++ parse l.text ++ parse b := by
  have hpieces := h.pieces_append a b
  refine ⟨?_, ?_, ?_⟩
  · have htoken : l.tokenSpan? (Cursor.start.past a) =
        l.token.map fun t => ⟨t, .behind a l.text⟩ := by
      rw [tokenSpan?, Block.between_past_start]
    rw [tokenize_eq_spans, hpieces, spans_append, spans_append, spans_shred, texts_append,
      texts_pieces, texts_shred, ← tokenize_eq_spans, htoken, spans_pieces]
  · rw [skipped_eq_skips, skipped_eq_skips, skipped_eq_skips, hpieces, skips_append, skips_append,
      skips_shred]
    omega
  · rw [parse_eq_filterMap, parse_eq_filterMap, parse_eq_filterMap, parse_eq_filterMap, hpieces,
      h.pieces_text, List.filterMap_append, List.filterMap_append]

/-- A line of `1.` and one of `.2`. -/
theorem tokenize_separated_newline :
    Lexeme.Separates ⟨['\n'], none⟩ ∧
      tokenize ['1', '.', '\n', '.', '2'] =
        tokenize ['1', '.'] ++ (tokenize ['.', '2']).map (TokenSpan.rebase ⟨3, 2, 1⟩) ∧
      skipped ['1', '.', '\n', '.', '2'] = skipped ['1', '.'] + skipped ['.', '2'] + 1 ∧
      parse ['1', '.', '\n', '.', '2'] = parse ['1', '.'] ++ parse ['\n'] ++ parse ['.', '2'] := by
  have hnewline : Glyph.isRecognized '\n' = false := by decide
  have h : Lexeme.Separates ⟨['\n'], none⟩ :=
    .noise (by simp) (List.forall_mem_singleton.2 hnewline)
  obtain ⟨htokens, hskipped, hparse⟩ := tokenize_separated h ['1', '.'] ['.', '2']
  have hend : Cursor.start.past (['1', '.'] ++ ['\n']) = ⟨3, 2, 1⟩ := by decide
  rw [hend] at htokens
  refine ⟨h, ?_, hskipped, hparse⟩
  simpa using htokens

/-! ## Noise between pieces -/

/-- A token and its bytes, without its line and column. -/
def TokenSpan.bytes (t : TokenSpan) : Token × Nat × Nat := (t.token, t.span.start, t.span.stop)

/-- The bytes of a token when as many as `count` are put in at a place. What
ends there or before stays. -/
def TokenSpan.bytesMoved (place count : Nat) (t : TokenSpan) : Token × Nat × Nat :=
  if t.span.stop ≤ place then t.bytes else (t.token, t.span.start + count, t.span.stop + count)

theorem TokenSpan.bytes_rebase (c : Cursor) (t : TokenSpan) :
    (t.rebase c).bytes = (t.token, c.offset + t.span.start, c.offset + t.span.stop) := by
  rw [bytes, rebase, Span.rebase]
  split <;> rfl

/-- What stands behind the place moves as the text from there does. -/
theorem TokenSpan.bytesMoved_rebase {c d : Cursor} {count : Nat} {t : TokenSpan}
    (h : t.span.start < t.span.stop) (hd : d.offset = c.offset + count) :
    (t.rebase c).bytesMoved c.offset count = (t.rebase d).bytes := by
  have hbytes := bytes_rebase c t
  simp only [bytes, Prod.mk.injEq] at hbytes
  obtain ⟨htoken, hstart, hstop⟩ := hbytes
  have hbehind : ¬ (t.rebase c).span.stop ≤ c.offset := by omega
  have hshift : c.offset + t.span.start + count = d.offset + t.span.start ∧
      c.offset + t.span.stop + count = d.offset + t.span.stop := by omega
  rw [bytesMoved, if_neg hbehind, bytes_rebase, htoken, hstart, hstop, hshift.1, hshift.2]

/-- **Pieces part wherever no number goes on.** A place inside a piece is
inside a number, and that is a token that holds the place. -/
theorem pieces_parted {a b : List Char}
    (h : ∀ t ∈ tokenize (a ++ b), t.token.isNumber →
      ¬ (t.span.start < Utf8.size a ∧ Utf8.size a < t.span.stop)) :
    pieces (a ++ b) = pieces a ++ pieces b := by
  rcases exists_parted (texts_pieces (a ++ b)) with
    ⟨xs, ys, hls, hxs⟩ | ⟨xs, l, ys, u, v, hls, htext, hu, hv, ha⟩
  · obtain ⟨hleft, hright⟩ := pieces_of_append hls hxs
    rw [hls, hleft, hright]
  · exfalso
    obtain ⟨text, rfl, -⟩ := (fits_of_pieces hls).of_parted htext hu hv
    obtain ⟨t, ht, hnumber, hstart, hstop⟩ := exists_mem_tokenize hls
    have hsize : Utf8.size text = Utf8.size u + Utf8.size v := by
      rw [← Utf8.size_append, ← htext]
      rfl
    have hu := Utf8.size_pos hu
    have hv := Utf8.size_pos hv
    refine h t ht hnumber ⟨?_, ?_⟩
    · rw [ha, Utf8.size_append]
      omega
    · rw [ha, Utf8.size_append]
      omega

/-- Noise put in between two pieces leaves them as they are. -/
theorem pieces_noise_between {a b noise : List Char} (h : pieces (a ++ b) = pieces a ++ pieces b)
    (hnoise : ∀ c ∈ noise, Glyph.isRecognized c = false) :
    pieces (a ++ noise ++ b) = pieces a ++ noise.map noiseOf ++ pieces b := by
  by_cases hne : noise = []
  · subst hne
    rw [List.append_nil, List.map_nil, List.append_nil, h]
  · have hsep : Lexeme.Separates ⟨noise, none⟩ := .noise hne hnoise
    exact hsep.pieces_append a b

/-- The tokens on both sides of noise between pieces. -/
theorem tokenize_of_pieces {a b noise : List Char}
    (h : pieces (a ++ noise ++ b) = pieces a ++ noise.map noiseOf ++ pieces b) :
    tokenize (a ++ noise ++ b) =
      tokenize a ++ (tokenize b).map (TokenSpan.rebase (Cursor.start.past (a ++ noise))) := by
  rw [tokenize_eq_spans, h, spans_append, spans_append, spans_noise, texts_append, texts_pieces,
    texts_noise, ← tokenize_eq_spans, spans_pieces, List.append_nil]

/-- And with no noise between them. -/
theorem tokenize_append_of_pieces {a b : List Char} (h : pieces (a ++ b) = pieces a ++ pieces b) :
    tokenize (a ++ b) =
      tokenize a ++ (tokenize b).map (TokenSpan.rebase (Cursor.start.past a)) := by
  have hnone : pieces (a ++ [] ++ b) = pieces a ++ [].map noiseOf ++ pieces b := by
    rw [List.append_nil, List.map_nil, List.append_nil, h]
  have := tokenize_of_pieces hnone
  rwa [List.append_nil] at this

/-- **Noise put in where no number goes on changes no token**, and moves by
its bytes those behind it. -/
theorem tokenize_noise_between {a b noise : List Char}
    (hplace : ∀ t ∈ tokenize (a ++ b), t.token.isNumber →
      ¬ (t.span.start < Utf8.size a ∧ Utf8.size a < t.span.stop))
    (hnoise : ∀ c ∈ noise, Glyph.isRecognized c = false) :
    parse (a ++ noise ++ b) = parse (a ++ b) ∧ parse (a ++ b) = parse a ++ parse b ∧
      (∀ t ∈ tokenize (a ++ b), t.span.stop ≤ Utf8.size a ∨ Utf8.size a ≤ t.span.start) ∧
      (tokenize (a ++ noise ++ b)).map TokenSpan.bytes =
        (tokenize (a ++ b)).map (TokenSpan.bytesMoved (Utf8.size a) (Utf8.size noise)) ∧
      skipped (a ++ noise ++ b) = skipped (a ++ b) + noise.length := by
  have hparted := pieces_parted hplace
  have hnoisy := pieces_noise_between hparted hnoise
  have htokens := tokenize_append_of_pieces hparted
  have hoffset : (Cursor.start.past a).offset = Utf8.size a := by
    rw [Cursor.offset_past, Cursor.offset_start, Nat.zero_add]
  refine ⟨?_, ?_, ?_, ?_, ?_⟩
  · have hnone : (noise.map noiseOf).filterMap Lexeme.token = [] := by
      simp [noiseOf]
    rw [parse_eq_filterMap, parse_eq_filterMap, hnoisy, hparted, List.filterMap_append,
      List.filterMap_append, List.filterMap_append, hnone, List.append_nil]
  · rw [parse_eq_filterMap, parse_eq_filterMap, parse_eq_filterMap, hparted, List.filterMap_append]
  · intro t ht
    rw [htokens, List.mem_append, List.mem_map] at ht
    rcases ht with ht | ⟨s, -, rfl⟩
    · exact .inl (bounds_of_mem_tokenize ht).2
    · have hbytes := TokenSpan.bytes_rebase (Cursor.start.past a) s
      simp only [TokenSpan.bytes, Prod.mk.injEq] at hbytes
      omega
  · rw [tokenize_of_pieces hnoisy, htokens, List.map_append, List.map_append, List.map_map,
      List.map_map]
    congr 1
    · -- the tokens before the place stay
      refine List.map_congr_left fun t ht => ?_
      rw [TokenSpan.bytesMoved, if_pos (bounds_of_mem_tokenize ht).2]
    · -- and those behind it are the same ones from a later cursor on
      refine List.map_congr_left fun t ht => ?_
      have hfurther : (Cursor.start.past (a ++ noise)).offset =
          (Cursor.start.past a).offset + Utf8.size noise := by
        rw [Cursor.past_append, Cursor.offset_past]
      have hmoved := TokenSpan.bytesMoved_rebase (bounds_of_mem_tokenize ht).1 hfurther
      rw [hoffset] at hmoved
      exact hmoved.symm
  · rw [skipped_eq_skips, skipped_eq_skips, hnoisy, hparted, skips_append, skips_append,
      skips_append, skips_noise]
    omega

/-- A blank at the second point of `1.2.3`, where a new number begins. -/
theorem tokenize_noise_between_numbers :
    (∀ t ∈ tokenize ['1', '.', '2', '.', '3'], t.token.isNumber →
        ¬ (t.span.start < 3 ∧ 3 < t.span.stop)) ∧
      Glyph.isRecognized ' ' = false ∧
      parse ['1', '.', '2', ' ', '.', '3'] = parse ['1', '.', '2', '.', '3'] ∧
      parse ['1', '.', '2', '.', '3'] = parse ['1', '.', '2'] ++ parse ['.', '3'] ∧
      (tokenize ['1', '.', '2', ' ', '.', '3']).map TokenSpan.bytes =
        (tokenize ['1', '.', '2', '.', '3']).map (TokenSpan.bytesMoved 3 1) ∧
      skipped ['1', '.', '2', ' ', '.', '3'] = skipped ['1', '.', '2', '.', '3'] + 1 := by
  have hplace : ∀ t ∈ tokenize ['1', '.', '2', '.', '3'], t.token.isNumber →
      ¬ (t.span.start < 3 ∧ 3 < t.span.stop) := by decide +kernel
  have hblank : Glyph.isRecognized ' ' = false := by decide
  have hnoise : ∀ c ∈ [' '], Glyph.isRecognized c = false := List.forall_mem_singleton.2 hblank
  obtain ⟨hsame, hparts, -, hbytes, hskipped⟩ :=
    tokenize_noise_between (a := ['1', '.', '2']) (b := ['.', '3']) hplace hnoise
  exact ⟨hplace, hblank, hsame, hparts, hbytes, hskipped⟩

end Abacus
