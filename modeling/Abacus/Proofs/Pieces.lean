import Abacus.Proofs.Front

/-!
# Pieces — the finest cut of a text

A scan skips a run of noise as one lexeme, so how much it skips at once
depends on what stands on both sides. Cut noise into single characters
and that is gone: a piece depends on the text behind it alone, and there
on its first character at most (`Lexeme.Fits`). A row of lexemes that fit
is the finest cut of its text (`pieces_texts`), and every text has one
(`fine_pieces`). So two texts are cut apart wherever the second begins
with nothing that may stand inside a number (`pieces_append`).
-/

namespace Abacus

namespace Lexeme

/-- The text of a row of lexemes. -/
def texts (ls : List Lexeme) : List Char := ls.flatMap Lexeme.text

@[simp] theorem texts_nil : texts [] = [] := rfl

@[simp] theorem texts_cons (l : Lexeme) (ls : List Lexeme) : texts (l :: ls) = l.text ++ texts ls :=
  List.flatMap_cons

@[simp] theorem texts_append (xs ys : List Lexeme) : texts (xs ++ ys) = texts xs ++ texts ys :=
  List.flatMap_append

/-- One character of noise. -/
def noiseOf (c : Char) : Lexeme := ⟨[c], none⟩

@[simp] theorem texts_noise (text : List Char) : texts (text.map noiseOf) = text := by
  induction text with
  | nil => rfl
  | cons c cs ih => simp [noiseOf, ih]

/-- Noise as single characters. A token stays whole. -/
def shred (l : Lexeme) : List Lexeme :=
  if l.token.isNone then l.text.map noiseOf else [l]

@[simp] theorem texts_shred (l : Lexeme) : texts l.shred = l.text := by
  unfold shred
  split <;> simp

/-- **The finest cut of a text**, noise one character at a time. -/
def pieces (input : List Char) : List Lexeme :=
  (cut Alternative.inOrder input).flatMap fun p => p.2.shred

@[simp] theorem pieces_nil : pieces [] = [] := by simp [pieces]

theorem pieces_of_leads {l : Lexeme} {rest : List Char} (h : l.Leads rest) :
    pieces (l.text ++ rest) = l.shred ++ pieces rest := by
  rw [pieces, cut_of_leads h, List.flatMap_cons]
  rfl

/-- **Texts are built of lexemes**: what holds of the empty text, and of a
text whenever it holds of what its first lexeme leads, holds of all. -/
theorem text_induction {motive : List Char → Prop} (nil : motive [])
    (lead : ∀ (l : Lexeme) (rest : List Char), l.Leads rest → motive rest →
      motive (l.text ++ rest)) (input : List Char) : motive input := by
  induction hn : input.length using Nat.strong_induction_on generalizing input with
  | _ n ih =>
    cases input with
    | nil => exact nil
    | cons c cs =>
      obtain ⟨l, rest, hl, happ⟩ := exists_leads c cs
      have hpos : 0 < l.text.length := List.length_pos_iff.2 hl.ne_nil
      have hlen : l.text.length + rest.length = n := by
        rw [← hn, ← happ, List.length_append]
      rw [← happ]
      exact lead l rest hl (ih rest.length (by omega) rest rfl)

@[simp] theorem texts_pieces (input : List Char) : texts (pieces input) = input := by
  induction input using text_induction with
  | nil => simp
  | lead l rest hl ih => rw [pieces_of_leads hl, texts_append, texts_shred, ih]

/-! ## Pieces fit what is behind them -/

/-- **A piece fits the text behind it.** Noise fits any. -/
inductive Fits : Lexeme → List Char → Prop
  /-- A number that ends there. -/
  | number {text rest : List Char} : Numeral.Leads text rest → Fits (ofNumeral text) rest
  /-- One glyph. -/
  | symbol {c : Char} {t : Token} {rest : List Char} : Token.ofGlyph? c = some t →
      Fits ⟨[c], some t⟩ rest
  /-- One character outside the alphabet. -/
  | noise {c : Char} {rest : List Char} : Glyph.isRecognized c = false → Fits (noiseOf c) rest
  /-- A point before no digit. -/
  | point {rest : List Char} : Stops Char.isDigit rest → Fits (noiseOf '.') rest

theorem Fits.ne_nil {l : Lexeme} {rest : List Char} (h : l.Fits rest) : l.text ≠ [] := by
  cases h with
  | number h => exact h.ne_nil
  | symbol _ => simp
  | noise _ => simp [noiseOf]
  | point _ => simp [noiseOf]

/-- A row in which every piece fits the text of those behind it. -/
inductive Fine : List Lexeme → Prop
  | nil : Fine []
  | cons {l : Lexeme} {ls : List Lexeme} : l.Fits (texts ls) → Fine ls → Fine (l :: ls)

theorem fine_noise_append {text : List Char} {ls : List Lexeme}
    (h : ∀ c ∈ text, Glyph.isRecognized c = false) (hls : Fine ls) :
    Fine (text.map noiseOf ++ ls) := by
  induction text with
  | nil => exact hls
  | cons c cs ih =>
    exact .cons (.noise (h c List.mem_cons_self)) (ih fun d hd => h d (List.mem_cons_of_mem _ hd))

/-- A lexeme that leads a fine row, cut finely, makes a fine row with it. -/
theorem Leads.fine_append {l : Lexeme} {ls : List Lexeme} (h : l.Leads (texts ls)) (hls : Fine ls) :
    Fine (l.shred ++ ls) := by
  cases h with
  | number h => exact .cons (.number h) hls
  | symbol h => exact .cons (.symbol h) hls
  | noise _ htext _ => exact fine_noise_append htext hls
  | point h => exact .cons (.point h) hls

/-- **Every text has a fine cut.** -/
theorem fine_pieces (input : List Char) : Fine (pieces input) := by
  induction input using text_induction with
  | nil => exact pieces_nil ▸ .nil
  | lead l rest hl ih =>
    rw [pieces_of_leads hl]
    exact Leads.fine_append (by rwa [texts_pieces]) ih

theorem Fine.right {xs ys : List Lexeme} (h : Fine (xs ++ ys)) : Fine ys := by
  induction xs with
  | nil => exact h
  | cons x xs ih =>
    cases h with
    | cons _ h => exact ih h

/-- **Each piece of a text fits those behind it.** -/
theorem fits_of_pieces {input : List Char} {xs ys : List Lexeme} {l : Lexeme}
    (h : pieces input = xs ++ l :: ys) : l.Fits (texts ys) := by
  have hfine : Fine (l :: ys) := Fine.right (h ▸ fine_pieces input)
  cases hfine with
  | cons hfits _ => exact hfits

/-- A piece is cut off whatever it fits. Noise is where this needs an
argument: what leads there is the whole run. -/
theorem pieces_of_fits {l : Lexeme} {rest : List Char} (h : l.Fits rest) :
    pieces (l.text ++ rest) = l :: pieces rest := by
  cases h with
  | number h => exact pieces_of_leads (.number h)
  | symbol h => exact pieces_of_leads (.symbol h)
  | point h => exact pieces_of_leads (.point h)
  | @noise c _ hc =>
    let p : Char → Bool := fun c => !Glyph.isRecognized c
    by_cases hrest : Stops p rest
    · have hc' : ∀ d ∈ [c], Glyph.isRecognized d = false := by simpa using hc
      exact pieces_of_leads (.noise (by simp) hc' hrest)
    · have hne : rest.takeWhile p ≠ [] := Stops.takeWhile_ne_nil hrest
      have hrun : ∀ d ∈ rest.takeWhile p, Glyph.isRecognized d = false := fun d hd => by
        simpa [p] using List.mem_takeWhile_imp hd
      have hcrun : ∀ d ∈ c :: rest.takeWhile p, Glyph.isRecognized d = false := by
        intro d hd
        rcases List.mem_cons.1 hd with rfl | hd
        · exact hc
        · exact hrun d hd
      have hshort := pieces_of_leads (.noise hne hrun (Stops.dropWhile p rest))
      have hlong := pieces_of_leads (.noise (by simp) hcrun (Stops.dropWhile p rest))
      simp only [List.cons_append, List.takeWhile_append_dropWhile] at hshort hlong
      simp only [noiseOf, List.cons_append, List.nil_append, hlong, hshort]
      rfl

/-- **A fine row is the finest cut of its text**, so it is the only one. -/
theorem pieces_texts {ls : List Lexeme} (h : Fine ls) : pieces (texts ls) = ls := by
  induction h with
  | nil => simp
  | cons hl _ ih => rw [texts_cons, pieces_of_fits hl, ih]

/-! ## Cutting a row in two, and putting two rows together -/

/-- What fits a text fits the front of it: less is there to go on with. -/
theorem Fits.left {l : Lexeme} {front back : List Char} (h : l.Fits (front ++ back)) :
    l.Fits front := by
  cases h with
  | number h => exact .number h.left
  | symbol h => exact .symbol h
  | noise h => exact .noise h
  | point h => exact .point h.left

theorem Fine.left {xs ys : List Lexeme} (h : Fine (xs ++ ys)) : Fine xs := by
  induction xs with
  | nil => exact .nil
  | cons x xs ih =>
    rw [List.cons_append] at h
    cases h with
    | cons hx h =>
      rw [texts_append] at hx
      exact .cons hx.left (ih h)

/-- What fits a text fits it still when something follows that may not
stand inside a number. -/
theorem Fits.append {l : Lexeme} {front back : List Char} (h : l.Fits front)
    (hback : Stops Glyph.isNumeric back) : l.Fits (front ++ back) := by
  cases h with
  | number h => exact .number (h.append hback)
  | symbol h => exact .symbol h
  | noise h => exact .noise h
  | point h => exact .point (h.append hback.isDigit)

theorem Fine.append {xs ys : List Lexeme} (hxs : Fine xs) (hys : Fine ys)
    (h : Stops Glyph.isNumeric (texts ys)) : Fine (xs ++ ys) := by
  induction hxs with
  | nil => exact hys
  | cons hx _ ih =>
    rw [List.cons_append]
    refine .cons ?_ ih
    rw [texts_append]
    exact hx.append h

/-- **Texts are cut apart before what may not stand inside a number.** -/
theorem pieces_append (a : List Char) {b : List Char} (h : Stops Glyph.isNumeric b) :
    pieces (a ++ b) = pieces a ++ pieces b := by
  have hfine := (fine_pieces a).append (fine_pieces b) (by rwa [texts_pieces])
  have := pieces_texts hfine
  rwa [texts_append, texts_pieces, texts_pieces] at this

/-- **Wherever the pieces of a text part, both sides are cut as by
themselves.** -/
theorem pieces_of_append {a b : List Char} {xs ys : List Lexeme} (h : pieces (a ++ b) = xs ++ ys)
    (hxs : texts xs = a) : pieces a = xs ∧ pieces b = ys := by
  have hfine : Fine (xs ++ ys) := h ▸ fine_pieces (a ++ b)
  have htexts : texts xs ++ texts ys = a ++ b := by
    rw [← texts_append, ← h, texts_pieces]
  have hys : texts ys = b := by
    rw [hxs] at htexts
    exact List.append_cancel_left htexts
  exact ⟨hxs ▸ pieces_texts hfine.left, hys ▸ pieces_texts hfine.right⟩

/-- Noise in front of a text is cut off it. -/
theorem pieces_noise_append {text : List Char} (h : ∀ c ∈ text, Glyph.isRecognized c = false)
    (rest : List Char) : pieces (text ++ rest) = text.map noiseOf ++ pieces rest := by
  have := pieces_texts (fine_noise_append h (fine_pieces rest))
  rwa [texts_append, texts_noise, texts_pieces] at this

/-- A symbol in front of a text is cut off it. -/
theorem pieces_symbol_cons {c : Char} {t : Token} (h : Token.ofGlyph? c = some t)
    (rest : List Char) : pieces (c :: rest) = ⟨[c], some t⟩ :: pieces rest :=
  pieces_of_fits (.symbol h)

/-! ## Finding a character in a row -/

/-- **Every character of a row is in one of its lexemes.** -/
theorem exists_located {ls : List Lexeme} {before after : List Char} {c : Char}
    (h : texts ls = before ++ c :: after) :
    ∃ xs l ys u v, ls = xs ++ l :: ys ∧ l.text = u ++ c :: v ∧ before = texts xs ++ u ∧
      after = v ++ texts ys := by
  induction ls generalizing before with
  | nil => simp at h
  | cons l ls ih =>
    rw [texts_cons, List.append_eq_append_iff] at h
    rcases h with ⟨more, rfl, htail⟩ | ⟨more, hl, htail⟩
    · obtain ⟨xs, m, ys, u, v, rfl, hm, rfl, hafter⟩ := ih htail
      exact ⟨l :: xs, m, ys, u, v, rfl, hm, by simp, hafter⟩
    · cases more with
      | nil =>
        -- the lexeme ends right before the character
        have hls : texts ls = [] ++ c :: after := htail.symm
        obtain ⟨xs, m, ys, u, v, rfl, hm, hbefore, hafter⟩ := ih hls
        refine ⟨l :: xs, m, ys, u, v, rfl, hm, ?_, hafter⟩
        rw [texts_cons, List.append_assoc, ← hbefore, hl, List.append_nil, List.append_nil]
      | cons d v =>
        obtain ⟨rfl, rfl⟩ := List.cons.inj htail
        exact ⟨[], l, ls, before, v, rfl, hl, rfl, rfl⟩

/-- **A place in the text of a row** is between two of its lexemes or inside
one. -/
theorem exists_parted {ls : List Lexeme} {a b : List Char} (h : texts ls = a ++ b) :
    (∃ xs ys, ls = xs ++ ys ∧ texts xs = a) ∨
      ∃ xs l ys u v, ls = xs ++ l :: ys ∧ l.text = u ++ v ∧ u ≠ [] ∧ v ≠ [] ∧ a = texts xs ++ u := by
  induction ls generalizing a with
  | nil =>
    obtain ⟨rfl, -⟩ := List.append_eq_nil_iff.1 h.symm
    exact .inl ⟨[], [], rfl, rfl⟩
  | cons l ls ih =>
    rw [texts_cons, List.append_eq_append_iff] at h
    rcases h with ⟨more, rfl, htail⟩ | ⟨v, hl, -⟩
    · -- the place is past the first lexeme
      rcases ih htail with ⟨xs, ys, rfl, rfl⟩ | ⟨xs, m, ys, u, v, rfl, hm, hu, hv, rfl⟩
      · exact .inl ⟨l :: xs, ys, rfl, texts_cons l xs⟩
      · exact .inr ⟨l :: xs, m, ys, u, v, rfl, hm, hu, hv, by simp⟩
    · -- or in the first, where only both ends are between two
      by_cases ha : a = []
      · exact .inl ⟨[], l :: ls, rfl, ha.symm⟩
      · by_cases hv : v = []
        · refine .inl ⟨[l], ls, rfl, ?_⟩
          rw [texts_cons, hl, hv, texts_nil, List.append_nil, List.append_nil]
        · exact .inr ⟨[], l, ls, a, v, rfl, hl, ha, hv, rfl⟩

/-- Only a number has an inside. -/
theorem Fits.of_parted {l : Lexeme} {rest u v : List Char} (h : l.Fits rest)
    (htext : l.text = u ++ v) (hu : u ≠ []) (hv : v ≠ []) :
    ∃ text, l = ofNumeral text ∧ Numeral.Leads text rest := by
  have hlength : 2 ≤ l.text.length := by
    have hu := List.length_pos_iff.2 hu
    have hv := List.length_pos_iff.2 hv
    rw [htext, List.length_append]
    omega
  cases h with
  | @number text _ h => exact ⟨text, rfl, h⟩
  | symbol _ => exact absurd hlength (Nat.not_succ_le_self 1)
  | noise _ => exact absurd hlength (Nat.not_succ_le_self 1)
  | point _ => exact absurd hlength (Nat.not_succ_le_self 1)

end Lexeme

end Abacus
