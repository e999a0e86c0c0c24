import Abacus.Proofs.Place
import Mathlib.Algebra.GroupWithZero.Nat
import Mathlib.Data.List.SplitBy
import Mathlib.Data.List.Infix

/-!
# Blocks — what a text means, said without a scan

Cut a text into its longest blocks of digits and points, and all else into
single characters. A glyph is its token, and any other single character is
nothing. A block is its segments of digits with points between them: the
first two make one number, and each one after them makes a number with the
point before it, if it holds a digit. `tokenize_eq_blocks` says that a
scan gives exactly these tokens, each at the place of its text, and how
many there are.
-/

namespace Abacus

/-- The span of a text, read off the text before it. -/
def Span.behind (before text : List Char) : Span where
  start := Utf8.size before
  stop := Utf8.size before + Utf8.size text
  line := 1 + before.count '\n'
  column := 1 + (before.rtakeWhile (· != '\n')).length

namespace Block

open Lexeme

/-- Two neighbours are in one block if both may stand inside a number. -/
def joins (a b : Char) : Bool := Glyph.isNumeric a && Glyph.isNumeric b

/-- **The blocks of a text**: its longest runs of digits and points, and
every other character by itself. -/
def ofText (input : List Char) : List (List Char) := input.splitBy joins

/-- A block of digits and points. -/
def isNumeric (block : List Char) : Bool := block.all Glyph.isNumeric

/-- A segment with the point before it, which is noise before no digit. -/
def pointed (digits : List Char) : Lexeme :=
  if digits.isEmpty then noiseOf '.' else ofNumeral ('.' :: digits)

/-- **What the segments of a block make**: the first, if it has a digit,
takes the next one along, and every other stands by itself behind its
point. -/
def ofSegments : List (List Char) → List Lexeme
  | [] => []
  | [] :: more => more.map pointed
  | [whole] => [ofNumeral whole]
  | whole :: places :: more => ofNumeral (whole ++ '.' :: places) :: more.map pointed

/-- What a block makes. -/
def lexemes (block : List Char) : List Lexeme :=
  if isNumeric block then ofSegments (block.splitOn '.')
  else block.map fun c => ⟨[c], Token.ofGlyph? c⟩

/-- What the blocks of a text make, in order. -/
def decompose (input : List Char) : List Lexeme := (ofText input).flatMap lexemes

/-- The tokens of a row of lexemes, each with the span of its text. -/
def tokensOf (ls : List Lexeme) : List TokenSpan :=
  (ls.inits.zip ls).filterMap fun (before, l) =>
    l.token.map fun t => ⟨t, .behind (texts before) l.text⟩

/-- How many numbers segments make: one for each with a digit, and one less
if the first two both have digits, since they make one together. -/
def numberCount (segments : List (List Char)) : Nat :=
  segments.countP (fun s => !s.isEmpty) -
    if (segments.take 2).countP (fun s => !s.isEmpty) = 2 then 1 else 0

/-! ## Segments -/

/-- The segments of a block hold digits only. -/
theorem isDigit_of_mem_splitOn {block segment : List Char} (h : ∀ c ∈ block, Glyph.isNumeric c)
    (hs : segment ∈ block.splitOn '.') : ∀ c ∈ segment, c.isDigit := by
  induction block generalizing segment with
  | nil =>
    rw [List.splitOn_nil, List.mem_singleton] at hs
    simp [hs]
  | cons d ds ih =>
    have hds : ∀ c ∈ ds, Glyph.isNumeric c := fun c hc => h c (List.mem_cons_of_mem _ hc)
    rw [List.splitOn_cons_eq_if_modifyHead] at hs
    split at hs
    · rcases List.mem_cons.1 hs with rfl | hs
      · simp
      · exact ih hds hs
    · next hne =>
      obtain ⟨first, more, hsplit⟩ := List.exists_cons_of_ne_nil (List.splitOn_ne_nil '.' ds)
      rw [hsplit] at ih hs
      rw [List.modifyHead_cons] at hs
      rcases List.mem_cons.1 hs with rfl | hs
      · intro c hc
        rcases List.mem_cons.1 hc with rfl | hc
        · -- not a point, and yet numeric
          rcases Glyph.isNumeric_iff.1 (h c List.mem_cons_self) with hd | rfl
          · exact hd
          · simp at hne
        · exact ih hds List.mem_cons_self c hc
      · exact ih hds (List.mem_cons_of_mem _ hs)

theorem texts_pointed (segments : List (List Char)) :
    texts (segments.map pointed) = segments.flatMap ('.' :: ·) := by
  induction segments with
  | nil => rfl
  | cons s ss ih =>
    rw [List.map_cons, texts_cons, ih, List.flatMap_cons, pointed]
    split
    · next h => simp [noiseOf, List.isEmpty_iff.1 h]
    · rfl

theorem intercalate_cons (between : Char) (first : List Char) (more : List (List Char)) :
    [between].intercalate (first :: more) = first ++ more.flatMap (between :: ·) := by
  induction more generalizing first with
  | nil => simp
  | cons s ss ih => rw [List.intercalate_cons_cons, ih, List.flatMap_cons]; simp

/-- **What segments make covers them and their points.** -/
theorem texts_ofSegments (segments : List (List Char)) :
    texts (ofSegments segments) = ['.'].intercalate segments := by
  match segments with
  | [] => rfl
  | [] :: more => rw [ofSegments, texts_pointed, intercalate_cons, List.nil_append]
  | [c :: cs] => simp [ofSegments, ofNumeral]
  | (c :: cs) :: places :: more =>
    have hmake : ofSegments ((c :: cs) :: places :: more) =
        ofNumeral ((c :: cs) ++ '.' :: places) :: more.map pointed := rfl
    rw [hmake, texts_cons, texts_pointed, intercalate_cons, List.flatMap_cons]
    simp [ofNumeral]

/-- Behind a segment comes a point, or what the block ends before. -/
theorem stops_pointed {segments : List (List Char)} {rest : List Char}
    (h : Stops Glyph.isNumeric rest) :
    Stops Char.isDigit (texts (segments.map pointed) ++ rest) := by
  rw [texts_pointed]
  cases segments with
  | nil => exact h.isDigit
  | cons s ss => exact Stops.cons.2 rfl

theorem fine_pointed {segments : List (List Char)} {ls : List Lexeme}
    (hs : ∀ s ∈ segments, ∀ c ∈ s, c.isDigit) (hls : Fine ls)
    (hstop : Stops Glyph.isNumeric (texts ls)) : Fine (segments.map pointed ++ ls) := by
  induction segments with
  | nil => exact hls
  | cons s ss ih =>
    refine .cons ?_ (ih fun t ht => hs t (List.mem_cons_of_mem _ ht))
    have hbehind : Stops Char.isDigit (texts (ss.map pointed ++ ls)) := by
      rw [texts_append]
      exact stops_pointed hstop
    rw [pointed]
    split
    · exact .point hbehind
    · next hne =>
      exact .number (.fraction (by simpa using hne) (hs s List.mem_cons_self) hbehind)

/-- **What segments make is cut as finely as can be.** -/
theorem fine_ofSegments {segments : List (List Char)} {ls : List Lexeme}
    (hs : ∀ s ∈ segments, ∀ c ∈ s, c.isDigit) (hls : Fine ls)
    (hstop : Stops Glyph.isNumeric (texts ls)) : Fine (ofSegments segments ++ ls) := by
  match segments with
  | [] => exact hls
  | [] :: more => exact fine_pointed (fun s h => hs s (List.mem_cons_of_mem _ h)) hls hstop
  | [c :: cs] =>
    exact .cons (.number (.whole (by simp) (hs _ List.mem_cons_self) hstop)) hls
  | (c :: cs) :: places :: more =>
    have hmore : ∀ s ∈ more, ∀ c ∈ s, c.isDigit := fun s h =>
      hs s (List.mem_cons_of_mem _ (List.mem_cons_of_mem _ h))
    have hplaces := hs places (List.mem_cons_of_mem _ List.mem_cons_self)
    have hbehind : Stops Char.isDigit (texts (more.map pointed ++ ls)) := by
      rw [texts_append]
      exact stops_pointed hstop
    exact .cons (.number (.decimal (by simp) (hs _ List.mem_cons_self) hplaces hbehind))
      (fine_pointed hmore hls hstop)

/-! ## Blocks -/

/-- **A block is all digits and points, or one other character.** -/
theorem isNumeric_or_singleton {block : List Char} (hne : block ≠ [])
    (h : block.IsChain fun a b => joins a b) :
    (∀ c ∈ block, Glyph.isNumeric c) ∨ ∃ c, block = [c] ∧ Glyph.isNumeric c = false := by
  induction block with
  | nil => exact absurd rfl hne
  | cons a as ih =>
    cases as with
    | nil => cases ha : Glyph.isNumeric a <;> simp [ha]
    | cons b bs =>
      obtain ⟨hab, hbs⟩ := List.isChain_cons_cons.1 h
      simp only [joins, Bool.and_eq_true] at hab
      rcases ih (by simp) hbs with hall | ⟨c, hc, hnot⟩
      · exact .inl (List.forall_mem_cons.2 ⟨hab.1, hall⟩)
      · rw [← (List.cons.inj hc).1, hab.2] at hnot
        cases hnot

/-- A row of blocks: none is empty, neighbours within one belong together,
and neighbours across two do not. -/
structure Parted (blocks : List (List Char)) : Prop where
  ne_nil : [] ∉ blocks
  within : ∀ block ∈ blocks, block.IsChain fun a b => joins a b
  across : blocks.IsChain fun a b => ∃ ha hb, joins (a.getLast ha) (b.head hb) = false

theorem parted_ofText (input : List Char) : Parted (ofText input) where
  ne_nil := List.nil_notMem_splitBy _ _
  within _ h := List.isChain_of_mem_splitBy h
  across := List.isChain_getLast_head_splitBy _ _

theorem Parted.tail {block : List Char} {blocks : List (List Char)}
    (h : Parted (block :: blocks)) : Parted blocks where
  ne_nil hmem := h.ne_nil (List.mem_cons_of_mem _ hmem)
  within b hb := h.within b (List.mem_cons_of_mem _ hb)
  across := h.across.tail

theorem Parted.head_ne_nil {block : List Char} {blocks : List (List Char)}
    (h : Parted (block :: blocks)) : block ≠ [] := fun hnil =>
  h.ne_nil (hnil ▸ List.mem_cons_self)

theorem Parted.head {block : List Char} {blocks : List (List Char)}
    (h : Parted (block :: blocks)) :
    (∀ c ∈ block, Glyph.isNumeric c) ∨ ∃ c, block = [c] ∧ Glyph.isNumeric c = false :=
  isNumeric_or_singleton h.head_ne_nil (h.within block List.mem_cons_self)

/-- **A block of digits and points is as long as it can be.** -/
theorem Parted.stops {block : List Char} {blocks : List (List Char)}
    (h : Parted (block :: blocks)) (hall : ∀ c ∈ block, Glyph.isNumeric c) :
    Stops Glyph.isNumeric blocks.flatten := by
  cases blocks with
  | nil => exact .nil
  | cons next blocks =>
    obtain ⟨⟨ha, hb, hjoin⟩, -⟩ := List.isChain_cons_cons.1 h.across
    obtain ⟨c, cs, rfl⟩ := List.exists_cons_of_ne_nil hb
    have hlast := hall _ (List.getLast_mem ha)
    refine Stops.cons.2 ?_
    simpa [joins, hlast] using hjoin

theorem texts_singles (text : List Char) :
    texts (text.map fun c => ⟨[c], Token.ofGlyph? c⟩) = text := by
  induction text with
  | nil => rfl
  | cons c cs ih => rw [List.map_cons, texts_cons, ih]; rfl

theorem texts_lexemes (block : List Char) : texts (lexemes block) = block := by
  unfold lexemes
  split
  · rw [texts_ofSegments, List.intercalate_splitOn]
  · exact texts_singles block

theorem texts_flatMap_lexemes (blocks : List (List Char)) :
    texts (blocks.flatMap lexemes) = blocks.flatten := by
  induction blocks with
  | nil => rfl
  | cons b bs ih => rw [List.flatMap_cons, texts_append, texts_lexemes, ih, List.flatten_cons]

/-- **The pieces of a text are all there and in order.** -/
theorem texts_decompose (input : List Char) : texts (decompose input) = input := by
  rw [decompose, texts_flatMap_lexemes, ofText, List.flatten_splitBy]

theorem fine_flatMap_lexemes {blocks : List (List Char)} (h : Parted blocks) :
    Fine (blocks.flatMap lexemes) := by
  induction blocks with
  | nil => exact .nil
  | cons block blocks ih =>
    have hfine := ih h.tail
    rw [List.flatMap_cons, lexemes]
    rcases h.head with hall | ⟨c, rfl, hc⟩
    · have hstop : Stops Glyph.isNumeric (texts (blocks.flatMap lexemes)) := by
        rw [texts_flatMap_lexemes]
        exact h.stops hall
      rw [if_pos (show isNumeric block by simpa [isNumeric] using hall)]
      exact fine_ofSegments (fun s hs => isDigit_of_mem_splitOn hall hs) hfine hstop
    · rw [if_neg (show ¬ isNumeric [c] by simp [isNumeric, hc])]
      have hfits : Fits ⟨[c], Token.ofGlyph? c⟩ (texts (blocks.flatMap lexemes)) := by
        rcases ht : Token.ofGlyph? c with - | t
        · refine .noise ?_
          rw [Glyph.isRecognized, hc, Glyph.isSymbol_eq_false_iff.2 ht, Bool.or_false]
        · exact .symbol ht
      exact .cons hfits hfine

/-- **The decomposition is the finest cut.** -/
theorem pieces_eq_decompose (input : List Char) : pieces input = decompose input := by
  have := pieces_texts (fine_flatMap_lexemes (parted_ofText input))
  rwa [texts_flatMap_lexemes, ofText, List.flatten_splitBy] at this

/-! ## Places -/

theorem between_past_start (before text : List Char) :
    Span.between (Cursor.start.past before) ((Cursor.start.past before).past text) =
      .behind before text := by
  simp [Span.between, Span.behind, Cursor.past_start]

theorem spans_past_start (before : List Char) (ls : List Lexeme) :
    spans (Cursor.start.past before) ls = (ls.inits.zip ls).filterMap fun (front, l) =>
      l.token.map fun t => ⟨t, .behind (before ++ texts front) l.text⟩ := by
  induction ls generalizing before with
  | nil => rfl
  | cons l ls ih =>
    rw [spans_cons, ← Cursor.past_append, ih, List.inits_cons, List.zip_cons_cons,
      List.filterMap_cons, List.zip_map_left, List.filterMap_map]
    have hhead : l.tokenSpan? (Cursor.start.past before) =
        l.token.map fun t => ⟨t, .behind (before ++ texts []) l.text⟩ := by
      rw [tokenSpan?, between_past_start, texts_nil, List.append_nil]
    rw [hhead]
    cases h : l.token <;> simp [h]

/-- The tokens of a row from the start are at the places of their texts. -/
theorem spans_start (ls : List Lexeme) : spans .start ls = tokensOf ls := by
  have := spans_past_start [] ls
  simpa [tokensOf] using this

/-! ## How many tokens there are -/

theorem length_spans (c : Cursor) (ls : List Lexeme) :
    (spans c ls).length = ls.countP fun l => l.token.isSome := by
  induction ls generalizing c with
  | nil => rfl
  | cons l ls ih =>
    rw [spans_cons, List.length_append, ih, List.countP_cons]
    cases h : l.token <;> simp [tokenSpan?, h, Nat.add_comm]

theorem countP_pointed (segments : List (List Char)) :
    (segments.map pointed).countP (fun l => l.token.isSome) =
      segments.countP fun s => !s.isEmpty := by
  induction segments with
  | nil => rfl
  | cons s ss ih =>
    rw [List.map_cons, List.countP_cons, List.countP_cons, ih, pointed]
    cases s <;> rfl

/-- **What segments make holds as many tokens as they are counted for.** -/
theorem countP_ofSegments (segments : List (List Char)) :
    (ofSegments segments).countP (fun l => l.token.isSome) = numberCount segments := by
  match segments with
  | [] => rfl
  | [] :: more =>
    rw [ofSegments, countP_pointed, numberCount]
    cases more with
    | nil => rfl
    | cons s ss => cases s <;> simp
  | [c :: cs] => rfl
  | (c :: cs) :: places :: more =>
    have hmake : ofSegments ((c :: cs) :: places :: more) =
        ofNumeral ((c :: cs) ++ '.' :: places) :: more.map pointed := rfl
    rw [hmake, List.countP_cons, countP_pointed, numberCount]
    cases places <;> simp [ofNumeral]

theorem countP_singles (text : List Char) :
    (text.map fun c => (⟨[c], Token.ofGlyph? c⟩ : Lexeme)).countP (fun l => l.token.isSome) =
      text.countP Glyph.isSymbol := by
  rw [List.countP_map]
  exact List.countP_congr fun c _ => by rw [← Glyph.isSome_ofGlyph?]; rfl

theorem countP_flatMap_lexemes (blocks : List (List Char)) :
    (blocks.flatMap lexemes).countP (fun l => l.token.isSome) =
      blocks.flatten.countP Glyph.isSymbol +
        ((blocks.filter isNumeric).map fun b => numberCount (b.splitOn '.')).sum := by
  induction blocks with
  | nil => rfl
  | cons block blocks ih =>
    rw [List.flatMap_cons, List.countP_append, ih, List.flatten_cons, List.countP_append,
      List.filter_cons, lexemes]
    by_cases hblock : isNumeric block
    · -- no symbol stands in a block of digits and points
      have hnone : block.countP Glyph.isSymbol = 0 := by
        refine List.countP_eq_zero.2 fun c hc hsymbol => ?_
        have hnumeric := List.all_eq_true.1 hblock c hc
        rw [Glyph.isNumeric_of_isSymbol hsymbol] at hnumeric
        cases hnumeric
      rw [if_pos hblock, if_pos hblock, countP_ofSegments, hnone, List.map_cons, List.sum_cons]
      omega
    · rw [if_neg hblock, if_neg hblock, countP_singles]
      omega

/-- **The tokens of a text are those of its blocks**, each at the place of
its own text, whatever the order in which a scan looks for them. There are
as many as there are symbols, and in every block as many numbers as
segments with a digit, less one if the first two both have digits. -/
theorem tokenize_eq_blocks (input : List Char) :
    texts (decompose input) = input ∧ tokenize input = tokensOf (decompose input) ∧
      (tokenize input).length = input.countP Glyph.isSymbol +
        (((ofText input).filter isNumeric).map fun b => numberCount (b.splitOn '.')).sum := by
  have hspans : tokenize input = spans .start (decompose input) := by
    rw [tokenize_eq_spans, pieces_eq_decompose]
  refine ⟨texts_decompose input, by rw [hspans, spans_start], ?_⟩
  have hcount := countP_flatMap_lexemes (ofText input)
  have hflat : (ofText input).flatten = input := List.flatten_splitBy joins input
  rw [hspans, length_spans, decompose, hcount, hflat]

/-- A second point begins a new number. -/
example : (ofSegments [['1'], [], ['2']]).map Lexeme.text = [['1', '.'], ['.', '2']] := rfl

end Block

end Abacus
