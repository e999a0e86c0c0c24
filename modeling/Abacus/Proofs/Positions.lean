import Abacus.Proofs.Place
import Mathlib.Algebra.Group.Nat.Defs

/-!
# Positions — lines and columns of a scan

A scan moves its cursor lexeme by lexeme, and within a lexeme character by
character. `Tokenizer.During` are the states it passes through. Each has
read a front of the text, and its cursor is where that front ends
(`During.exists_front`), so no counter of it ever passes the counts of the
whole text. `after_row` is the one lemma about the loop: what it leaves
behind a row of lexemes is read off the text of that row.
-/

namespace Abacus

/-- **Where a text ends**, counted on the text as a whole: behind all its
bytes, one line further for every newline, and one column further for every
character behind the last newline. -/
def Cursor.behind (text : List Char) : Cursor where
  offset := Utf8.size text
  line := 1 + text.count '\n'
  column := 1 + (text.rtakeWhile (· != '\n')).length

namespace Cursor

theorem past_start_eq_behind (text : List Char) : start.past text = behind text :=
  past_start text

/-- No line and no column is past the count of the characters and one
more. -/
theorem line_behind_le (text : List Char) : (behind text).line ≤ text.length + 1 := by
  have := List.count_le_length (a := '\n') (l := text)
  simp only [behind]
  omega

theorem column_behind_le (text : List Char) : (behind text).column ≤ text.length + 1 := by
  have := (List.rtakeWhile_suffix (· != '\n') text).length_le
  simp only [behind]
  omega

end Cursor

/-- Every character has a byte. -/
theorem Utf8.length_le_size (text : List Char) : text.length ≤ Utf8.size text := by
  induction text with
  | nil => exact Nat.le_refl 0
  | cons c cs ih =>
    have := c.utf8Size_pos
    rw [List.length_cons, Utf8.size_cons]
    omega

namespace Lexeme

/-- The finest cut of some lexemes has their text. -/
theorem texts_flatMap_shred (ls : List Lexeme) : texts (ls.flatMap shred) = texts ls := by
  induction ls with
  | nil => rfl
  | cons l ls ih => rw [List.flatMap_cons, texts_append, texts_shred, ih, texts_cons]

/-- **A cut loses nothing.** -/
theorem texts_cut (input : List Char) :
    texts ((cut Alternative.inOrder input).map Prod.snd) = input := by
  rw [← texts_flatMap_shred, List.flatMap_map]
  exact texts_pieces input

theorem skips_flatMap_shred (ls : List Lexeme) : skips (ls.flatMap shred) = skips ls := by
  induction ls with
  | nil => rfl
  | cons l ls ih => rw [List.flatMap_cons, skips_append, skips_shred, ih, skips_cons]

/-- A row skips no more characters than it has. -/
theorem skips_le_length (ls : List Lexeme) : skips ls ≤ (texts ls).length := by
  induction ls with
  | nil => exact Nat.le_refl 0
  | cons l ls ih =>
    rw [skips_cons, texts_cons, List.length_append]
    split <;> omega

end Lexeme

open Lexeme

/-! ## The loop -/

namespace Placed

/-- Rows are put together where the first one ends. -/
theorem row_append (c : Cursor) (xs ys : List (List Char × Lexeme)) :
    row c (xs ++ ys) = row c xs ++ row (c.past (texts (xs.map Prod.snd))) ys := by
  induction xs generalizing c with
  | nil => rfl
  | cons x xs ih =>
    obtain ⟨ahead, l⟩ := x
    rw [List.cons_append, row, ih, row, List.map_cons, texts_cons, Cursor.past_append,
      List.cons_append]

/-- **A row parts as its lexemes do.** -/
theorem row_eq_append {c : Cursor} {cuts : List (List Char × Lexeme)} {read ahead : List Placed}
    (h : row c cuts = read ++ ahead) :
    ∃ xs ys, cuts = xs ++ ys ∧ read = row c xs ∧
      ahead = row (c.past (texts (xs.map Prod.snd))) ys := by
  induction read generalizing c cuts with
  | nil => exact ⟨[], cuts, rfl, rfl, h.symm⟩
  | cons p read ih =>
    cases cuts with
    | nil => simp [row] at h
    | cons x cuts =>
      obtain ⟨text, l⟩ := x
      rw [row, List.cons_append] at h
      obtain ⟨rfl, hrest⟩ := List.cons.inj h
      obtain ⟨xs, ys, rfl, rfl, rfl⟩ := ih hrest
      exact ⟨(text, l) :: xs, ys, rfl, rfl, by rw [List.map_cons, texts_cons, Cursor.past_append]⟩

/-- The last lexeme of a row ends where the text of the row does. -/
theorem getLast?_row (c : Cursor) (cuts : List (List Char × Lexeme)) :
    ((row c cuts).getLast?.map stop).getD c = c.past (texts (cuts.map Prod.snd)) := by
  induction cuts using List.reverseRecOn with
  | nil => rfl
  | append_singleton cuts x _ =>
    obtain ⟨ahead, l⟩ := x
    rw [row_append, List.map_append, texts_append, Cursor.past_append]
    simp [row]

end Placed

namespace Tokenizer

/-- **What the loop leaves behind a row of lexemes**, whatever was scanned
before. -/
theorem after_row (t : Tokenizer) (cuts : List (List Char × Lexeme)) :
    t.after (Placed.row Cursor.start cuts) =
      ⟨Cursor.behind (texts (cuts.map Prod.snd)), skips (cuts.map Prod.snd)⟩ := by
  have hcursor := Placed.getLast?_row Cursor.start cuts
  have hskipped := sum_skipped_row Cursor.start cuts
  have hcuts : (cuts.flatMap fun p => p.2.shred) = (cuts.map Prod.snd).flatMap shred := by
    rw [List.flatMap_map]
  rw [hcuts, skips_flatMap_shred] at hskipped
  rw [Cursor.past_start_eq_behind] at hcursor
  rw [after, ← hcursor, ← hskipped]
  rfl

/-- **The state after a scan** is told by the text alone. -/
theorem tokenize_fst (t : Tokenizer) (input : List Char) :
    (t.tokenize input).1 = ⟨Cursor.behind input, Abacus.skipped input⟩ := by
  have hscan : ∀ u : Tokenizer, (u.tokenize input).1 =
      ⟨Cursor.behind input, skips ((cut Alternative.inOrder input).map Prod.snd)⟩ := by
    intro u
    have := after_row u (cut Alternative.inOrder input)
    rwa [texts_cut] at this
  rw [hscan, Abacus.skipped, hscan]

/-- A state of a scan between its start and its end: some lexemes are read,
and the cursor has passed the characters `front` of the next one, which is
counted as skipped only when all of it is read. -/
inductive During (t : Tokenizer) (input : List Char) : Tokenizer → Prop
  /-- The next lexeme is being passed. -/
  | within {read ahead : List Placed} {p : Placed} {front back : List Char} :
      t.scan input = read ++ p :: ahead → p.lexeme.text = front ++ back →
      During t input ⟨(t.after read).cursor.past front, (t.after read).skipped⟩
  /-- All are read. -/
  | done : During t input (t.tokenize input).1

/-- **Every state of a scan has read a front of the text**: its cursor is
where that front ends, and it has skipped no more than that. -/
theorem During.exists_front {t u : Tokenizer} {input : List Char} (h : t.During input u) :
    ∃ before after, input = before ++ after ∧ u.cursor = .behind before ∧
      u.skipped ≤ before.length := by
  cases h with
  | @within read ahead p front back hscan hp =>
    obtain ⟨xs, ys, hcut, rfl, hahead⟩ := Placed.row_eq_append hscan
    cases ys with
    | nil => simp [Placed.row] at hahead
    | cons y ys =>
      obtain ⟨text, l⟩ := y
      obtain ⟨rfl, -⟩ := List.cons.inj hahead
      have hp : l.text = front ++ back := hp
      have hinput := texts_cut input
      rw [hcut, List.map_append, List.map_cons, texts_append, texts_cons, hp] at hinput
      have hcursor := Cursor.past_start_eq_behind (texts (xs.map Prod.snd) ++ front)
      rw [Cursor.past_append, Cursor.past_start_eq_behind] at hcursor
      have hskips := skips_le_length (xs.map Prod.snd)
      have hreset : t.reset.cursor = Cursor.start := rfl
      rw [hreset, after_row]
      refine ⟨texts (xs.map Prod.snd) ++ front, back ++ texts (ys.map Prod.snd), ?_, hcursor, ?_⟩
      · rw [← hinput]
        simp
      · rw [List.length_append]
        exact Nat.le_add_right_of_le hskips
  | done =>
    have hskips := skips_le_length (pieces input)
    rw [texts_pieces, ← skipped_eq_skips] at hskips
    rw [tokenize_fst]
    exact ⟨input, [], (List.append_nil input).symm, rfl, hskips⟩

end Tokenizer

/-! ## Every token and every state -/

/-- A token of a scan starts where the text before it ends. -/
theorem start_of_mem_tokenize {input : List Char} {s : TokenSpan} (h : s ∈ tokenize input) :
    ∃ before after, input = before ++ after ∧ s.span.start = Utf8.size before ∧
      s.span.line = (Cursor.behind before).line ∧
      s.span.column = (Cursor.behind before).column := by
  rw [tokenize_eq_spans] at h
  obtain ⟨xs, l, ys, hls, hs⟩ := mem_spans_iff.1 h
  rw [tokenSpan?, Option.map_eq_some_iff] at hs
  obtain ⟨token, -, rfl⟩ := hs
  have hinput : input = texts xs ++ texts (l :: ys) := by
    rw [← texts_append, ← hls, texts_pieces]
  refine ⟨texts xs, texts (l :: ys), hinput, ?_⟩
  rw [Cursor.past_start_eq_behind]
  exact ⟨rfl, rfl, rfl⟩

/-- **Lines and columns are those of the text**, of every token, at the end,
and bounded by the length of the text at every moment of the scan. -/
theorem tokenize_positions (t : Tokenizer) (input : List Char) :
    (∀ s ∈ (t.tokenize input).2, ∃ before after, input = before ++ after ∧
        s.span.start = Utf8.size before ∧ s.span.line = 1 + before.count '\n' ∧
        s.span.column = 1 + (before.rtakeWhile (· != '\n')).length) ∧
      (t.tokenize input).1.cursor =
        ⟨Utf8.size input, 1 + input.count '\n', 1 + (input.rtakeWhile (· != '\n')).length⟩ ∧
      ∀ u, t.During input u →
        (u.cursor.offset ≤ Utf8.size input ∧ u.skipped ≤ input.length ∧
          u.cursor.line ≤ input.length + 1 ∧ u.cursor.column ≤ input.length + 1) ∧
        (Utf8.size input < 2 ^ 63 → u.cursor.offset < 2 ^ 64 ∧ u.skipped < 2 ^ 64 ∧
          u.cursor.line < 2 ^ 64 ∧ u.cursor.column < 2 ^ 64) := by
  refine ⟨fun s hs => start_of_mem_tokenize hs, ?_, fun u hu => ?_⟩
  · rw [Tokenizer.tokenize_fst]
    rfl
  · obtain ⟨before, after, rfl, hcursor, hskipped⟩ := hu.exists_front
    have hline := Cursor.line_behind_le before
    have hcolumn := Cursor.column_behind_le before
    have hoffset : u.cursor.offset = Utf8.size before := by rw [hcursor]; rfl
    have hlength := Utf8.length_le_size (before ++ after)
    rw [← hcursor] at hline hcolumn
    rw [Utf8.size_append, List.length_append] at *
    omega

/-- A plus on the second line, behind a carriage return, and the state in
the middle of the noise before it. -/
theorem tokenize_positions_second_line :
    (⟨.operator .add, ⟨4, 5, 2, 2⟩⟩ : TokenSpan) ∈
        (Tokenizer.new.tokenize ['é', '\n', '\r', '+']).2 ∧
      Tokenizer.new.During ['é', '\n', '\r', '+'] ⟨⟨3, 2, 1⟩, 0⟩ ∧
      (∃ before after, ['é', '\n', '\r', '+'] = before ++ after ∧ 4 = Utf8.size before ∧
        2 = 1 + before.count '\n' ∧ 2 = 1 + (before.rtakeWhile (· != '\n')).length) ∧
      (Tokenizer.new.tokenize ['é', '\n', '\r', '+']).1.cursor = ⟨5, 2, 3⟩ ∧
      (3 ≤ Utf8.size ['é', '\n', '\r', '+'] ∧ 2 ≤ ['é', '\n', '\r', '+'].length + 1) := by
  have hmem : (⟨.operator .add, ⟨4, 5, 2, 2⟩⟩ : TokenSpan) ∈
      (Tokenizer.new.tokenize ['é', '\n', '\r', '+']).2 := by decide +kernel
  have hduring : Tokenizer.new.During ['é', '\n', '\r', '+'] ⟨⟨3, 2, 1⟩, 0⟩ := by
    have hcut : Lexeme.cut Lexeme.Alternative.inOrder ['é', '\n', '\r', '+'] =
        [(['é', '\n', '\r', '+'], ⟨['é', '\n', '\r'], none⟩),
          (['+'], ⟨['+'], some (.operator .add)⟩)] := by decide +kernel
    have hscan : Tokenizer.new.scan ['é', '\n', '\r', '+'] = [] ++
        ⟨['é', '\n', '\r', '+'], ⟨['é', '\n', '\r'], none⟩, ⟨0, 1, 1⟩, ⟨4, 2, 2⟩⟩ ::
          [⟨['+'], ⟨['+'], some (.operator .add)⟩, ⟨4, 2, 2⟩, ⟨5, 2, 3⟩⟩] := by
      rw [Tokenizer.scan, Tokenizer.scanBy, hcut]
      rfl
    have hfront : ['é', '\n', '\r'] = ['é', '\n'] ++ ['\r'] := rfl
    exact .within hscan hfront
  obtain ⟨htokens, hend, hstates⟩ := tokenize_positions .new ['é', '\n', '\r', '+']
  obtain ⟨⟨hoffset, -, hline, -⟩, -⟩ := hstates _ hduring
  exact ⟨hmem, hduring, htokens _ hmem, hend, hoffset, hline⟩

end Abacus
