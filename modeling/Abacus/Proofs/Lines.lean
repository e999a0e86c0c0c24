import Abacus.Command.Input
import Abacus.Proofs.Encoding
import Mathlib.Data.List.Forall2
import Mathlib.Data.List.Induction

/-!
# Lines — what is heard of some input

Bytes fall into pieces in one way (`Cut`), a text is one line (`LineOf`),
and reading goes on up to the first piece that is no text. `Heard` says
all this without a reader: of any bytes something is heard
(`exists_heard`), and it is what is read (`Heard.lines_eq`). Where the
bytes are those of lines to begin with, the lines come back but for a
carriage return at their end (`lines_encode_append`).
-/

namespace Abacus

namespace Input

/-! ## Pieces -/

/-- **Bytes cut behind each newline.** No piece is empty, and only the last
may have no newline. -/
inductive Cut : List UInt8 → List (List UInt8) → Prop
  /-- Of nothing there are no pieces. -/
  | nil : Cut [] []
  /-- What has no newline is one piece. -/
  | last {piece : List UInt8} : piece ≠ [] → 10 ∉ piece → Cut piece [piece]
  /-- A piece goes up to the first newline, which is part of it. -/
  | line {front bytes : List UInt8} {ps : List (List UInt8)} : 10 ∉ front → Cut bytes ps →
      Cut (front ++ 10 :: bytes) ((front ++ [10]) :: ps)

/-- Without a newline the bytes are one piece. -/
theorem pieces_of_not_mem {piece : List UInt8} (hne : piece ≠ []) (h : 10 ∉ piece) :
    pieces piece = [piece] := by
  induction piece with
  | nil => exact absurd rfl hne
  | cons b bs ih =>
    obtain ⟨hb, hbs⟩ := not_or.1 (List.mem_cons.not.1 h)
    rw [pieces, if_neg (Ne.symm hb)]
    cases bs with
    | nil => rfl
    | cons d ds => rw [ih (List.cons_ne_nil d ds) hbs]

/-- A newline ends the first piece, which has no other. -/
theorem pieces_line {front : List UInt8} (h : 10 ∉ front) (bytes : List UInt8) :
    pieces (front ++ 10 :: bytes) = (front ++ [10]) :: pieces bytes := by
  induction front with
  | nil => rw [List.nil_append, pieces, if_pos rfl]; rfl
  | cons b bs ih =>
    obtain ⟨hb, hbs⟩ := not_or.1 (List.mem_cons.not.1 h)
    rw [List.cons_append, pieces, if_neg (Ne.symm hb), ih hbs]
    rfl

/-- **Bytes are cut in one way.** -/
theorem Cut.pieces_eq {bytes : List UInt8} {ps : List (List UInt8)} (h : Cut bytes ps) :
    pieces bytes = ps := by
  induction h with
  | nil => rfl
  | last hne h => exact pieces_of_not_mem hne h
  | line h _ ih => rw [pieces_line h, ih]

/-- **The function cuts as the relation says.** -/
theorem cut_pieces (bytes : List UInt8) : Cut bytes (pieces bytes) := by
  induction bytes with
  | nil => exact .nil
  | cons b bs ih =>
    rw [pieces]
    by_cases hb : b = 10
    · subst hb
      exact .line (List.not_mem_nil) ih
    · -- the byte goes to the front of the first piece, if there is one
      rw [if_neg hb]
      generalize pieces bs = ps at ih
      cases ih with
      | nil => exact .last (List.cons_ne_nil b []) (by simpa using Ne.symm hb)
      | last hne h => exact .last (List.cons_ne_nil b bs) (by simpa [h] using Ne.symm hb)
      | @line front bytes ps h hcut =>
        have hfront : 10 ∉ b :: front := by simpa [h] using Ne.symm hb
        exact .line hfront hcut

/-! ## Lines -/

/-- **The line that a text is**: without the newline at its end, and without
one carriage return before that. -/
inductive LineOf : List Char → List Char → Prop
  | returned (l : List Char) : LineOf (l ++ ['\r', '\n']) l
  | ended {l : List Char} : l.getLast? ≠ some '\r' → LineOf (l ++ ['\n']) l
  | unended {l : List Char} : l.getLast? ≠ some '\n' → LineOf l l

/-- A return before the newline goes with it. -/
theorem withoutEnd_returned (l : List Char) : withoutEnd (l ++ ['\r', '\n']) = l := by
  simp [withoutEnd]

/-- Without one, only the newline goes. -/
theorem withoutEnd_ended {l : List Char} (h : l.getLast? ≠ some '\r') :
    withoutEnd (l ++ ['\n']) = l := by
  induction l using List.reverseRecOn with
  | nil => rfl
  | append_singleton l c _ =>
    have hc : c ≠ '\r' := by simpa using h
    simp [withoutEnd, hc]

/-- A last line without a newline stays as it is. -/
theorem withoutEnd_unended {l : List Char} (h : l.getLast? ≠ some '\n') : withoutEnd l = l := by
  induction l using List.reverseRecOn with
  | nil => rfl
  | append_singleton l c _ =>
    have hc : c ≠ '\n' := by simpa using h
    simp [withoutEnd, hc]

/-- So a line is what is left without its end, -/
theorem LineOf.withoutEnd_eq {text l : List Char} (h : LineOf text l) : withoutEnd text = l := by
  cases h with
  | returned l => exact withoutEnd_returned l
  | ended h => exact withoutEnd_ended h
  | unended h => exact withoutEnd_unended h

/-- and what is left is a line. -/
theorem lineOf_withoutEnd (text : List Char) : LineOf text (withoutEnd text) := by
  by_cases hlast : text.getLast? = some '\n'
  · obtain ⟨l, rfl⟩ := List.getLast?_eq_some_iff.1 hlast
    by_cases hreturn : l.getLast? = some '\r'
    · obtain ⟨k, rfl⟩ := List.getLast?_eq_some_iff.1 hreturn
      rw [List.append_assoc, List.singleton_append, withoutEnd_returned]
      exact .returned k
    · rw [withoutEnd_ended hreturn]
      exact .ended hreturn
  · rw [withoutEnd_unended hlast]
    exact .unended hlast

/-! ## Reading -/

/-- **What is heard of some bytes**: a line for each piece that comes before
the first that is no text, and nothing of that one and of those behind it. -/
structure Heard (bytes : List UInt8) (ls : List (List Char)) (unheard : List (List UInt8)) :
    Prop where
  /-- The pieces are texts, each with its line, and then those not heard. -/
  cut : ∃ texts, Cut bytes (texts.map Utf8.encode ++ unheard) ∧ List.Forall₂ LineOf texts ls
  /-- The first of those is no text. -/
  refused : ∀ piece ∈ unheard.head?, ∀ text, piece ≠ Utf8.encode text

/-- A piece that is a text is the line of it, -/
theorem line?_encode (text : List Char) : line? (Utf8.encode text) = some (withoutEnd text) := by
  rw [line?, Utf8.decode?_encode]
  rfl

/-- and one that is none is not heard. -/
theorem line?_eq_none {piece : List UInt8} (h : ∀ text, piece ≠ Utf8.encode text) :
    line? piece = none := by
  rw [line?, Option.map_eq_none_iff, Option.eq_none_iff_forall_ne_some]
  intro text htext
  exact h text (Utf8.decode?_eq_some_iff.1 htext)

/-- Texts are read one by one. -/
theorem linesOf_encode_append (texts : List (List Char)) (ps : List (List UInt8)) :
    linesOf (texts.map Utf8.encode ++ ps) =
      (texts.map withoutEnd ++ (linesOf ps).1, (linesOf ps).2) := by
  induction texts with
  | nil => rfl
  | cons t ts ih => rw [List.map_cons, List.cons_append, linesOf, line?_encode, ih]; rfl

/-- Nothing is read from what is no text on. -/
theorem linesOf_refused {ps : List (List UInt8)}
    (h : ∀ piece ∈ ps.head?, ∀ text, piece ≠ Utf8.encode text) : linesOf ps = ([], ps.isEmpty) := by
  cases ps with
  | nil => rfl
  | cons p ps => rw [linesOf, line?_eq_none (h p rfl)]; rfl

/-- **What is heard is what is read**, and all is read if nothing is left. -/
theorem Heard.lines_eq {bytes : List UInt8} {ls : List (List Char)} {unheard : List (List UInt8)}
    (h : Heard bytes ls unheard) : lines bytes = (ls, unheard.isEmpty) := by
  obtain ⟨texts, hcut, hlines⟩ := h.cut
  have hmap : texts.map withoutEnd = ls := by
    refine List.forall₂_eq_eq_eq ▸ List.forall₂_map_left_iff.2 ?_
    exact hlines.imp fun _ _ => LineOf.withoutEnd_eq
  rw [lines, hcut.pieces_eq, linesOf_encode_append, linesOf_refused h.refused, hmap,
    List.append_nil]

/-- **Of any bytes something is heard.** -/
theorem exists_heard (bytes : List UInt8) : ∃ ls unheard, Heard bytes ls unheard := by
  have hsplit : ∀ ps : List (List UInt8), ∃ (texts : List (List Char)) (unheard : _),
      ps = texts.map Utf8.encode ++ unheard ∧
        ∀ piece ∈ unheard.head?, ∀ text, piece ≠ Utf8.encode text := by
    intro ps
    induction ps with
    | nil => exact ⟨[], [], rfl, by simp⟩
    | cons p ps ih =>
      by_cases hp : ∃ text, p = Utf8.encode text
      · obtain ⟨text, rfl⟩ := hp
        obtain ⟨texts, unheard, rfl, hrefused⟩ := ih
        exact ⟨text :: texts, unheard, rfl, hrefused⟩
      · refine ⟨[], p :: ps, rfl, fun piece hpiece text htext => hp ⟨text, ?_⟩⟩
        rwa [← Option.some.inj hpiece] at htext
  -- and the line of each text is what is left of it without its end
  obtain ⟨texts, unheard, hpieces, hrefused⟩ := hsplit (pieces bytes)
  refine ⟨texts.map withoutEnd, unheard, ⟨texts, hpieces ▸ cut_pieces bytes, ?_⟩, hrefused⟩
  rw [List.forall₂_map_right_iff, List.forall₂_same]
  exact fun text _ => lineOf_withoutEnd text

/-! ## Input that is made of lines -/

/-- **Lines that are written come back**, each without the carriage return
that may stand at its end, and what comes behind them is read as by itself. -/
theorem lines_encode_append {es : List (List Char)} (h : ∀ e ∈ es, '\n' ∉ e)
    (bytes : List UInt8) : lines (Utf8.encode (es.flatMap (· ++ ['\n'])) ++ bytes) =
      ((es.map fun e => withoutEnd (e ++ ['\n'])) ++ (lines bytes).1, (lines bytes).2) := by
  induction es with
  | nil => rfl
  | cons e es ih =>
    have he : 10 ∉ Utf8.encode e := Utf8.newline_mem_encode.not.2 (h e List.mem_cons_self)
    -- the bytes of an expression have no newline, so the first piece ends behind it
    have hpiece : Utf8.encode e ++ [10] = Utf8.encode (e ++ ['\n']) := by
      rw [Utf8.encode_append, Utf8.encode_newline]
    have hrest := ih fun d hd => h d (List.mem_cons_of_mem _ hd)
    rw [lines] at hrest ⊢
    rw [List.flatMap_cons, Utf8.encode_append, ← hpiece, List.append_assoc, List.append_assoc,
      List.singleton_append, pieces_line he, linesOf, hpiece, line?_encode, hrest]
    rfl

/-- The last of them needs no newline, unless it is empty. -/
theorem lines_encode_last {e : List Char} (hne : e ≠ []) (h : '\n' ∉ e) :
    lines (Utf8.encode e) = ([e], true) := by
  have hbytes : Utf8.encode e ≠ [] := fun hnil => hne (Utf8.encode_inj hnil)
  have hlast : e.getLast? ≠ some '\n' := fun hlast => h (List.mem_of_getLast? hlast)
  rw [lines, pieces_of_not_mem hbytes (Utf8.newline_mem_encode.not.2 h), linesOf, line?_encode,
    withoutEnd_unended hlast]
  rfl

end Input

end Abacus
