import Abacus.Proofs.Place

/-!
# Coverage — which characters of a text its tokens hold

Nothing is lost and nothing is held twice. The spans of a scan are in
order and apart, every digit is in one number, every symbol is a token by
itself, and no noise is in any span. What becomes of a point hangs on both
its neighbours. The characters that no span holds are those that the scan
counts as skipped. `accounted_tokenize` says all this of every text; the
lemmas before it locate a character in a row of lexemes
(`exists_located`) and find the one token that holds it
(`filter_holds_spans`).
-/

namespace Abacus

/-- Whether a token holds the byte at an offset. -/
def TokenSpan.holds (t : TokenSpan) (offset : Nat) : Bool :=
  t.span.start ≤ offset && offset < t.span.stop

theorem TokenSpan.holds_iff {t : TokenSpan} {offset : Nat} :
    t.holds offset ↔ t.span.start ≤ offset ∧ offset < t.span.stop := by
  simp [TokenSpan.holds]

/-- The tokens that hold the byte at an offset. -/
def holdersAt (ts : List TokenSpan) (offset : Nat) : List TokenSpan := ts.filter (·.holds offset)

/-- The tokens that hold the character behind a front part of a text. -/
def holders (ts : List TokenSpan) (before : List Char) : List TokenSpan :=
  holdersAt ts (Utf8.size before)

/-- An offset that is not within a character. -/
def IsBoundary (input : List Char) (offset : Nat) : Prop :=
  ∃ before after, input = before ++ after ∧ Utf8.size before = offset

/-- **All of a text is accounted for** by tokens in places and a count of
skipped characters. -/
structure Accounted (input : List Char) (ts : List TokenSpan) (skipped : Nat) : Prop where
  /-- No span is empty or goes past the end. -/
  within : ∀ t ∈ ts, t.span.start < t.span.stop ∧ t.span.stop ≤ Utf8.size input
  /-- Spans begin and end between characters. -/
  boundary : ∀ t ∈ ts, IsBoundary input t.span.start ∧ IsBoundary input t.span.stop
  /-- Spans are in order and apart. -/
  ordered : ts.Pairwise fun a b => a.span.stop ≤ b.span.start
  /-- A digit is in one span, that of a number. -/
  digit : ∀ before c after, input = before ++ c :: after → c.isDigit →
    ∃ t, holders ts before = [t] ∧ t.token.isNumber
  /-- A symbol is in one span, which holds nothing else and is no number's. -/
  symbol : ∀ before c after, input = before ++ c :: after → Glyph.isSymbol c →
    ∃ t, holders ts before = [t] ∧ t.token.isNumber = false ∧
      t.span.start = Utf8.size before ∧ t.span.stop = Utf8.size before + 1
  /-- No byte of a character outside the alphabet is in a span. -/
  noise : ∀ before c after, input = before ++ c :: after → Glyph.isRecognized c = false →
    ∀ i < c.utf8Size, holdersAt ts (Utf8.size before + i) = []
  /-- A point is in no span if no digit follows it, and none precedes it
  but one of a number that has its point already. -/
  point : ∀ before after, input = before ++ '.' :: after →
    (holders ts before = [] ↔ Stops Char.isDigit after ∧
      ∀ front d, before = front ++ [d] → d.isDigit →
        ∃ t ∈ ts, t.token.isNumber ∧ t.holds (Utf8.size front) ∧
          ∃ whole places, front = whole ++ '.' :: places ∧ t.holds (Utf8.size whole))
  /-- The characters in no span are the skipped ones. -/
  skipped_eq : skipped =
    (List.range input.length).countP fun i => (holders ts (input.take i)).isEmpty
  /-- And together with those in spans they are all. -/
  total : skipped +
    (List.range input.length).countP (fun i => !(holders ts (input.take i)).isEmpty) =
      input.length

namespace Lexeme

/-! ## What holds a character of a row -/

/-- **The token that holds a character** is that of the lexeme the character
is in, if it is one. -/
theorem filter_holds_spans (c : Cursor) (xs ys : List Lexeme) (l : Lexeme) {offset : Nat}
    (hfrom : c.offset + Utf8.size (texts xs) ≤ offset)
    (hto : offset < c.offset + Utf8.size (texts xs) + Utf8.size l.text) :
    holdersAt (spans c (xs ++ l :: ys)) offset = (l.tokenSpan? (c.past (texts xs))).toList := by
  have hbefore : holdersAt (spans c xs) offset = [] := by
    refine List.filter_eq_nil_iff.2 fun t ht => ?_
    have := (bounds_of_mem_spans ht).2
    rw [TokenSpan.holds_iff]
    omega
  have hbehind : holdersAt (spans ((c.past (texts xs)).past l.text) ys) offset = [] := by
    refine List.filter_eq_nil_iff.2 fun t ht => ?_
    have := (bounds_of_mem_spans ht).1
    rw [Cursor.offset_past, Cursor.offset_past] at this
    rw [TokenSpan.holds_iff]
    omega
  have hself : holdersAt (l.tokenSpan? (c.past (texts xs))).toList offset =
      (l.tokenSpan? (c.past (texts xs))).toList := by
    refine List.filter_eq_self.2 fun t ht => ?_
    obtain ⟨hstart, hstop, -⟩ := span_of_tokenSpan? (Option.mem_toList.1 ht)
    rw [Cursor.offset_past] at hstart hstop
    rw [TokenSpan.holds_iff]
    omega
  unfold holdersAt at hbefore hbehind hself ⊢
  rw [spans_append, spans_cons, List.filter_append, List.filter_append, hbefore, hself, hbehind]
  simp

/-! ## Which piece a character can be in -/

/-- A digit is in a number. -/
theorem Fits.of_isDigit {l : Lexeme} {rest : List Char} {c : Char} (h : l.Fits rest)
    (hc : c ∈ l.text) (hd : c.isDigit) : ∃ text, l = ofNumeral text ∧ Numeral.Leads text rest := by
  have hnumeric := Glyph.isNumeric_of_isDigit hd
  cases h with
  | @number text _ h => exact ⟨text, rfl, h⟩
  | symbol ht =>
    obtain rfl := List.mem_singleton.1 hc
    rw [Glyph.isNumeric_of_isSymbol (Glyph.isSymbol_iff.2 ⟨_, ht⟩)] at hnumeric
    cases hnumeric
  | noise hnot =>
    obtain rfl := List.mem_singleton.1 hc
    rw [Glyph.isNumeric_of_not_isRecognized hnot] at hnumeric
    cases hnumeric
  | point _ =>
    obtain rfl := List.mem_singleton.1 hc
    cases hd

/-- A symbol is a piece by itself. -/
theorem Fits.of_isSymbol {l : Lexeme} {rest : List Char} {c : Char} (h : l.Fits rest)
    (hc : c ∈ l.text) (hs : Glyph.isSymbol c) :
    ∃ t, Token.ofGlyph? c = some t ∧ l = ⟨[c], some t⟩ := by
  have hnumeric := Glyph.isNumeric_of_isSymbol hs
  cases h with
  | number h =>
    rw [h.isNumeric c hc] at hnumeric
    cases hnumeric
  | @symbol _ t _ ht =>
    obtain rfl := List.mem_singleton.1 hc
    exact ⟨t, ht, rfl⟩
  | noise hnot =>
    obtain rfl := List.mem_singleton.1 hc
    rw [Glyph.isRecognized_iff.2 (.inr hs)] at hnot
    cases hnot
  | point _ =>
    obtain rfl := List.mem_singleton.1 hc
    cases hs

/-- So is a character outside the alphabet, and it is no token. -/
theorem Fits.of_not_isRecognized {l : Lexeme} {rest : List Char} {c : Char} (h : l.Fits rest)
    (hc : c ∈ l.text) (hnot : Glyph.isRecognized c = false) : l = noiseOf c := by
  cases h with
  | number h =>
    rw [Glyph.isRecognized_iff.2 (.inl (h.isNumeric c hc))] at hnot
    cases hnot
  | symbol ht =>
    obtain rfl := List.mem_singleton.1 hc
    rw [Glyph.isRecognized_iff.2 (.inr (Glyph.isSymbol_iff.2 ⟨_, ht⟩))] at hnot
    cases hnot
  | noise _ =>
    obtain rfl := List.mem_singleton.1 hc
    rfl
  | point _ =>
    obtain rfl := List.mem_singleton.1 hc
    rfl

/-- A point is in a number, or is noise before no digit. -/
theorem Fits.of_point {l : Lexeme} {rest : List Char} (h : l.Fits rest) (hc : '.' ∈ l.text) :
    (∃ text, l = ofNumeral text ∧ Numeral.Leads text rest) ∨
      l = noiseOf '.' ∧ Stops Char.isDigit rest := by
  cases h with
  | @number text _ h => exact .inl ⟨text, rfl, h⟩
  | symbol ht =>
    obtain rfl := List.mem_singleton.1 hc
    cases ht
  | noise hnot =>
    obtain rfl := List.mem_singleton.1 hc
    cases hnot
  | point h => exact .inr ⟨rfl, h⟩

end Lexeme

/-! ## The point in a number -/

namespace Numeral

theorem not_mem_of_isDigit {text : List Char} (h : ∀ c ∈ text, c.isDigit) : '.' ∉ text :=
  fun hmem => absurd (h '.' hmem) (by decide)

/-- **A number that a point follows has its point already**, before any digit
that it ends with. -/
theorem Leads.mem_point {u rest : List Char} {d : Char} (h : Leads (u ++ [d]) ('.' :: rest))
    (hd : d.isDigit) : '.' ∈ u := by
  generalize htext : u ++ [d] = text at h
  have hne : d ≠ '.' := by
    rintro rfl
    cases hd
  have hmem : '.' ∈ u ++ [d] := by
    cases h with
    | whole _ _ hrest => exact absurd (Stops.cons.1 hrest) (by decide)
    | decimal _ _ _ _ => simp [htext]
    | fraction _ _ _ => simp [htext]
  simpa [hne.symm] using hmem

/-- **A point in a number that no digit follows has digits before it**, and
only digits. -/
theorem Leads.before_point {u v rest : List Char} (h : Leads (u ++ '.' :: v) rest)
    (hv : Stops Char.isDigit (v ++ rest)) : u ≠ [] ∧ ∀ c ∈ u, c.isDigit := by
  generalize htext : u ++ '.' :: v = text at h
  cases h with
  | whole _ hds _ => exact absurd (htext ▸ by simp) (not_mem_of_isDigit hds)
  | @decimal ds fs _ hne hds hfs _ =>
    -- the point that divides the text stands behind the first digits
    rcases List.append_eq_append_iff.1 htext with ⟨as, rfl, has⟩ | ⟨as, rfl, has⟩
    · cases as with
      | nil =>
        rw [List.append_nil] at hne hds
        exact ⟨hne, hds⟩
      | cons a as =>
        obtain ⟨rfl, -⟩ := List.cons.inj has
        exact absurd (by simp) (not_mem_of_isDigit hds)
    · cases as with
      | nil =>
        rw [List.append_nil]
        exact ⟨hne, hds⟩
      | cons a as =>
        obtain ⟨-, rfl⟩ := List.cons.inj has
        exact absurd (by simp) (not_mem_of_isDigit hfs)
  | @fraction fs _ hne hfs _ =>
    cases u with
    | nil =>
      obtain ⟨-, rfl⟩ := List.cons.inj htext
      obtain ⟨f, fs, rfl⟩ := List.exists_cons_of_ne_nil hne
      have := hfs f List.mem_cons_self
      rw [Stops.cons.1 hv] at this
      cases this
    | cons a u =>
      obtain ⟨-, rfl⟩ := List.cons.inj htext
      exact absurd (by simp) (not_mem_of_isDigit hfs)

end Numeral

open Lexeme

/-! ## Characters of a scanned text -/

/-- **Every character of a text is in one piece, and the token that holds
its bytes is that piece's.** -/
theorem exists_piece {input before after : List Char} {c : Char}
    (h : input = before ++ c :: after) :
    ∃ xs l ys u v, pieces input = xs ++ l :: ys ∧ l.text = u ++ c :: v ∧
      before = texts xs ++ u ∧ after = v ++ texts ys ∧ l.Fits (texts ys) ∧
      ∀ i < c.utf8Size, holdersAt (tokenize input) (Utf8.size before + i) =
        (l.tokenSpan? (Cursor.start.past (texts xs))).toList := by
  have htexts : texts (pieces input) = before ++ c :: after := by rw [texts_pieces, h]
  obtain ⟨xs, l, ys, u, v, hls, hl, hbefore, hafter⟩ := exists_located htexts
  refine ⟨xs, l, ys, u, v, hls, hl, hbefore, hafter, fits_of_pieces hls, fun i hi => ?_⟩
  rw [tokenize_eq_spans, hls]
  refine filter_holds_spans _ xs ys l ?_ ?_
  · rw [hbefore, Utf8.size_append, Cursor.offset_start]
    omega
  · rw [hbefore, hl, Utf8.size_append, Utf8.size_append, Utf8.size_cons, Cursor.offset_start]
    omega

/-- The token that holds a character, if any, is its piece's. -/
theorem holders_of_piece {input before : List Char} {c : Char} {held : List TokenSpan}
    (h : ∀ i < c.utf8Size, holdersAt (tokenize input) (Utf8.size before + i) = held) :
    holders (tokenize input) before = held := h 0 c.utf8Size_pos

/-- What a text of one character holds is alone in it. -/
theorem alone_of_singleton_eq {c d : Char} {u v : List Char} (h : [d] = u ++ c :: v) :
    u = [] ∧ v = [] := by
  cases u with
  | nil => exact ⟨rfl, (List.cons.inj h).2.symm⟩
  | cons a u => simp at h

theorem Glyph.utf8Size_of_isSymbol {c : Char} (h : Glyph.isSymbol c) : c.utf8Size = 1 := by
  simp only [Glyph.isSymbol, List.contains_eq_mem, List.mem_cons, List.not_mem_nil, or_false,
    decide_eq_true_eq] at h
  rcases h with rfl | rfl | rfl | rfl | rfl | rfl <;> rfl

theorem holders_digit {input before after : List Char} {c : Char}
    (h : input = before ++ c :: after) (hd : c.isDigit) :
    ∃ t, holders (tokenize input) before = [t] ∧ t.token.isNumber := by
  obtain ⟨xs, l, ys, u, v, -, hl, -, -, hfits, hheld⟩ := exists_piece h
  obtain ⟨text, rfl, -⟩ := hfits.of_isDigit (by simp [hl]) hd
  exact ⟨_, holders_of_piece hheld, rfl⟩

theorem holders_symbol {input before after : List Char} {c : Char}
    (h : input = before ++ c :: after) (hs : Glyph.isSymbol c) :
    ∃ t, holders (tokenize input) before = [t] ∧ t.token.isNumber = false ∧
      t.span.start = Utf8.size before ∧ t.span.stop = Utf8.size before + 1 := by
  obtain ⟨xs, l, ys, u, v, -, hl, hbefore, -, hfits, hheld⟩ := exists_piece h
  obtain ⟨t, ht, rfl⟩ := hfits.of_isSymbol (by simp [hl]) hs
  obtain ⟨rfl, rfl⟩ := alone_of_singleton_eq hl
  rw [List.append_nil] at hbefore
  have hone := Glyph.utf8Size_of_isSymbol hs
  refine ⟨_, holders_of_piece hheld, Token.isNumber_of_ofGlyph? ht, ?_, ?_⟩
  · simp [Span.between, hbefore]
  · simp [Span.between, hbefore, hone]

theorem holdersAt_noise {input before after : List Char} {c : Char}
    (h : input = before ++ c :: after) (hn : Glyph.isRecognized c = false) :
    ∀ i < c.utf8Size, holdersAt (tokenize input) (Utf8.size before + i) = [] := by
  obtain ⟨xs, l, ys, u, v, -, hl, -, -, hfits, hheld⟩ := exists_piece h
  obtain rfl := hfits.of_not_isRecognized (by simp [hl]) hn
  exact hheld

/-! ## What becomes of a point -/

/-- A digit right before a stray point is in a number that has a point. -/
theorem exists_number_before_stray {input front : List Char} {d : Char} {xs ys : List Lexeme}
    (h : pieces input = xs ++ noiseOf '.' :: ys) (hxs : texts xs = front ++ [d])
    (hd : d.isDigit) :
    ∃ t ∈ tokenize input, t.token.isNumber ∧ t.holds (Utf8.size front) ∧
      ∃ whole places, front = whole ++ '.' :: places ∧ t.holds (Utf8.size whole) := by
  obtain ⟨xs₁, m, ys₁, u, v, rfl, hm, rfl, hnil⟩ := exists_located hxs
  obtain ⟨rfl, hys₁⟩ := List.append_eq_nil_iff.1 hnil.symm
  rw [List.append_assoc, List.cons_append] at h
  -- the piece of the digit ends right before the point
  have hfits : m.Fits ('.' :: texts ys) := by
    have hrow := fits_of_pieces h
    rwa [texts_append, hys₁, texts_cons, List.nil_append] at hrow
  obtain ⟨text, rfl, hlead⟩ := hfits.of_isDigit (by simp [hm]) hd
  have htext : text = u ++ [d] := hm
  rw [htext] at hlead h
  obtain ⟨whole, places, rfl⟩ := List.append_of_mem (hlead.mem_point hd)
  obtain ⟨t, ht, hnumber, hstart, hstop⟩ := exists_mem_tokenize h
  have hpos := d.utf8Size_pos
  have hpoint := Char.utf8Size_pos '.'
  simp only [Utf8.size_append, Utf8.size_cons, Utf8.size_nil] at hstop
  refine ⟨t, ht, hnumber, ?_, texts xs₁ ++ whole, places, by simp, ?_⟩
  · rw [TokenSpan.holds_iff]
    simp only [Utf8.size_append, Utf8.size_cons]
    omega
  · rw [TokenSpan.holds_iff, Utf8.size_append]
    omega

/-- A point in a number that no digit follows stands behind the first digits
of that number, so no token that holds the last of them holds a point
before it. -/
theorem no_earlier_point {input text u v : List Char} {xs ys : List Lexeme}
    (h : pieces input = xs ++ ofNumeral text :: ys) (htext : text = u ++ '.' :: v)
    (hlead : Numeral.Leads text (texts ys)) (hstop : Stops Char.isDigit (v ++ texts ys)) :
    ∃ front d, texts xs ++ u = front ++ [d] ∧ d.isDigit ∧
      ∀ t ∈ tokenize input, t.holds (Utf8.size front) →
        ∀ whole places, front = whole ++ '.' :: places → ¬ t.holds (Utf8.size whole) := by
  rw [htext] at hlead
  obtain ⟨hne, hdigits⟩ := hlead.before_point hstop
  obtain ⟨ds, d, rfl⟩ := (List.eq_nil_or_concat' u).resolve_left hne
  have hds : '.' ∉ ds :=
    Numeral.not_mem_of_isDigit fun c hc => hdigits c (List.mem_append_left _ hc)
  refine ⟨texts xs ++ ds, d, (List.append_assoc ..).symm, hdigits d (by simp), ?_⟩
  intro t ht hheld whole places hfront hpoint
  -- the token is that of the number, so it starts where the number does
  have hstart : t.span.start = Utf8.size (texts xs) := by
    have hmem : t ∈ holdersAt (tokenize input) (Utf8.size (texts xs ++ ds)) :=
      List.mem_filter.2 ⟨ht, hheld⟩
    have hpos := d.utf8Size_pos
    rw [tokenize_eq_spans, h, filter_holds_spans .start xs ys (ofNumeral text)] at hmem
    · obtain ⟨hstart, -, -⟩ := span_of_tokenSpan? (Option.mem_toList.1 hmem)
      rw [hstart, Cursor.offset_past, Cursor.offset_start, Nat.zero_add]
    · rw [Utf8.size_append, Cursor.offset_start]
      omega
    · rw [ofNumeral, htext, Cursor.offset_start]
      simp only [Utf8.size_append, Utf8.size_cons, Utf8.size_nil]
      omega
  rw [TokenSpan.holds_iff] at hpoint
  rcases List.append_eq_append_iff.1 hfront with ⟨as, rfl, rfl⟩ | ⟨as, hxs, hplaces⟩
  · exact hds (by simp)
  · cases as with
    | nil =>
      obtain rfl : '.' :: places = ds := hplaces
      exact hds List.mem_cons_self
    | cons a as =>
      have hsize : 0 < Utf8.size (a :: as) := Utf8.size_pos (by simp)
      rw [hxs, Utf8.size_append] at hstart
      omega

theorem holders_point {input before after : List Char} (h : input = before ++ '.' :: after) :
    holders (tokenize input) before = [] ↔ Stops Char.isDigit after ∧
      ∀ front d, before = front ++ [d] → d.isDigit →
        ∃ t ∈ tokenize input, t.token.isNumber ∧ t.holds (Utf8.size front) ∧
          ∃ whole places, front = whole ++ '.' :: places ∧ t.holds (Utf8.size whole) := by
  obtain ⟨xs, l, ys, u, v, hls, hl, hbefore, hafter, hfits, hheld⟩ := exists_piece h
  have hholders := holders_of_piece hheld
  rcases hfits.of_point (by simp [hl]) with ⟨text, rfl, hlead⟩ | ⟨rfl, hstop⟩
  · -- in a number: it is held, and then one of the two conditions fails
    have htext : text = u ++ '.' :: v := hl
    refine ⟨fun hnil => ?_, fun ⟨hdigit, hprev⟩ => ?_⟩
    · rw [hholders] at hnil
      cases hnil
    · obtain ⟨front, d, hfront, hd, hnone⟩ :=
        no_earlier_point hls htext hlead (hafter ▸ hdigit)
      obtain ⟨t, ht, -, hheld, whole, places, hwhole, hpoint⟩ :=
        hprev front d (hbefore.trans hfront) hd
      exact absurd hpoint (hnone t ht hheld whole places hwhole)
  · -- a stray point: no number goes on behind it, and none before it can take it
    obtain ⟨rfl, rfl⟩ := alone_of_singleton_eq hl
    refine ⟨fun _ => ⟨hafter ▸ hstop, fun front d hfront hd => ?_⟩, fun _ => hholders⟩
    rw [List.append_nil] at hbefore
    exact exists_number_before_stray hls (hbefore.symm.trans hfront) hd

/-! ## Counting what no token holds -/

/-- A token holds nothing behind its own text. -/
theorem holdersAt_spans_cons (c : Cursor) (l : Lexeme) (ls : List Lexeme) {offset : Nat}
    (h : c.offset + Utf8.size l.text ≤ offset) :
    holdersAt (spans c (l :: ls)) offset = holdersAt (spans (c.past l.text) ls) offset := by
  have hself : holdersAt (l.tokenSpan? c).toList offset = [] := by
    refine List.filter_eq_nil_iff.2 fun t ht => ?_
    obtain ⟨-, hstop, -⟩ := span_of_tokenSpan? (Option.mem_toList.1 ht)
    rw [TokenSpan.holds_iff]
    omega
  unfold holdersAt at hself ⊢
  rw [spans_cons, List.filter_append, hself, List.nil_append]

/-- Within a lexeme its token holds all, or there is none. -/
theorem isEmpty_holdersAt_spans_cons (c : Cursor) (l : Lexeme) (ls : List Lexeme) {i : Nat}
    (h : i < l.text.length) :
    (holdersAt (spans c (l :: ls)) (c.offset + Utf8.size (l.text.take i))).isEmpty =
      l.token.isNone := by
  have hsize : Utf8.size (l.text.take i) < Utf8.size l.text := by
    have hdrop : l.text.drop i ≠ [] := fun hnil => by
      rw [List.drop_eq_nil_iff] at hnil
      omega
    have hpos := Utf8.size_pos hdrop
    have hsplit := Utf8.size_append (l.text.take i) (l.text.drop i)
    rw [List.take_append_drop] at hsplit
    omega
  have hheld : holdersAt (spans c ([] ++ l :: ls)) (c.offset + Utf8.size (l.text.take i)) =
      (l.tokenSpan? c).toList := by
    refine filter_holds_spans c [] ls l ?_ ?_
    · exact Nat.add_le_add_left (Nat.zero_le _) _
    · rw [texts_nil, Utf8.size_nil]
      omega
  rw [List.nil_append] at hheld
  rw [hheld, tokenSpan?]
  cases l.token <;> rfl

/-- The characters at all places of the front of a text are that front. -/
theorem filterMap_getElem?_range (front back : List Char) :
    (List.range front.length).filterMap ((front ++ back)[·]?) = front := by
  induction front with
  | nil => rfl
  | cons c cs ih => simpa [List.range_succ_eq_map, List.filterMap_map] using ih

/-- **The characters of a row that no token holds are those of its noise.** -/
theorem filterMap_range_spans (c : Cursor) (ls : List Lexeme) :
    ((List.range (texts ls).length).filter fun i =>
      (holdersAt (spans c ls) (c.offset + Utf8.size ((texts ls).take i))).isEmpty).filterMap
        ((texts ls)[·]?) = texts (ls.filter fun l => l.token.isNone) := by
  induction ls generalizing c with
  | nil => rfl
  | cons l ls ih =>
    rw [texts_cons, List.length_append, List.range_add, List.filter_append, List.filterMap_append,
      List.filter_map, List.filterMap_map]
    -- within the first lexeme its token holds all, or there is none
    have hfirst : ∀ i ∈ List.range l.text.length, (holdersAt (spans c (l :: ls))
        (c.offset + Utf8.size ((l.text ++ texts ls).take i))).isEmpty = l.token.isNone := by
      intro i hi
      rw [List.mem_range] at hi
      rw [List.take_append_of_le_length (Nat.le_of_lt hi)]
      exact isEmpty_holdersAt_spans_cons c l ls hi
    -- and behind it the rest of the row is left
    have hbehind : (fun i => (holdersAt (spans c (l :: ls))
          (c.offset + Utf8.size ((l.text ++ texts ls).take i))).isEmpty) ∘ (l.text.length + ·) =
        fun i => (holdersAt (spans (c.past l.text) ls)
          ((c.past l.text).offset + Utf8.size ((texts ls).take i))).isEmpty := by
      funext i
      rw [Function.comp_apply, List.take_length_add_append, Utf8.size_append, Cursor.offset_past,
        ← Nat.add_assoc, holdersAt_spans_cons c l ls (Nat.le_add_right ..)]
    have hchars : (fun i : Nat => (l.text ++ texts ls)[i]?) ∘ (l.text.length + ·) =
        fun i : Nat => (texts ls)[i]? := by
      funext i
      rw [Function.comp_apply, List.getElem?_append_right (Nat.le_add_right ..),
        Nat.add_sub_cancel_left]
    rw [List.filter_congr hfirst, hbehind, hchars, ih (c.past l.text), List.filter_cons]
    cases l.token.isNone with
    | true => simp [filterMap_getElem?_range]
    | false => simp

/-- As many are skipped. -/
theorem skips_eq_length (ls : List Lexeme) :
    skips ls = (texts (ls.filter fun l => l.token.isNone)).length := by
  induction ls with
  | nil => rfl
  | cons l ls ih =>
    rw [skips_cons, ih, List.filter_cons]
    cases l.token.isNone <;> simp

/-- **The characters of a row that no token holds are those it skips.** -/
theorem countP_holders_spans (c : Cursor) (ls : List Lexeme) :
    ((List.range (texts ls).length).countP fun i =>
      (holdersAt (spans c ls) (c.offset + Utf8.size ((texts ls).take i))).isEmpty) = skips ls := by
  rw [skips_eq_length, ← filterMap_range_spans c, List.length_filterMap_eq_countP,
    List.countP_filter]
  refine List.countP_congr fun i hi => ?_
  rw [List.mem_range] at hi
  simp [hi]

/-- The characters of a text that no token holds are those its scan counts. -/
theorem skipped_eq_countP (input : List Char) : skipped input =
    (List.range input.length).countP fun i =>
      (holders (tokenize input) (input.take i)).isEmpty := by
  have hrow := countP_holders_spans .start (pieces input)
  simp only [texts_pieces, Cursor.offset_start, Nat.zero_add, ← tokenize_eq_spans] at hrow
  rw [skipped_eq_skips, ← hrow]
  rfl

/-- **Every text is accounted for by its tokens** and the count of what its
scan skips. -/
theorem accounted_tokenize (input : List Char) :
    Accounted input (tokenize input) (skipped input) := by
  have hcount := skipped_eq_countP input
  have htotal : skipped input + ((List.range input.length).countP fun i =>
      !(holders (tokenize input) (input.take i)).isEmpty) = input.length := by
    let p : Nat → Bool := fun i => (holders (tokenize input) (input.take i)).isEmpty
    have hall := List.length_eq_countP_add_countP p (l := List.range input.length)
    have hnot : (fun i => decide ¬p i = true) = fun i => !p i := by
      funext i
      cases p i <;> rfl
    rw [List.length_range, hnot] at hall
    rw [hcount]
    exact hall.symm
  have hordered : (tokenize input).Pairwise fun a b => a.span.stop ≤ b.span.start := by
    rw [tokenize_eq_spans]
    exact pairwise_spans _ _
  constructor
  case ordered => exact hordered
  case skipped_eq => exact hcount
  case total => exact htotal
  case digit => exact fun before c after h hd => holders_digit h hd
  case symbol => exact fun before c after h hs => holders_symbol h hs
  case noise => exact fun before c after h hn => holdersAt_noise h hn
  case point => exact fun before after h => holders_point h
  case within => exact fun t ht => bounds_of_mem_tokenize ht
  case boundary =>
    intro t ht
    obtain ⟨before, text, after, rfl, -, hstart, hstop⟩ := span_of_mem_tokenize ht
    have hbefore : before ++ text ++ after = before ++ (text ++ after) := List.append_assoc ..
    exact ⟨⟨before, text ++ after, hbefore, hstart.symm⟩, ⟨before ++ text, after, rfl, hstop.symm⟩⟩

end Abacus
