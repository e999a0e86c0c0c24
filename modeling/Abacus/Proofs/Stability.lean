import Abacus.Proofs.Numerals

/-!
# Stability — what more input cannot change

A scan that stops in the middle of a text has seen enough of all its
tokens but one. A number that the text ends with may go on, and nothing
else may: a symbol is one glyph, and noise holds no token, be it a point
that turns out to begin a number. `Extends` says how the pieces of a text
go on when more is appended (`extends_pieces`), and `tokenize_append` reads
off it that the settled tokens stay where they are and that an unfinished
number is gone on with.
-/

namespace Abacus

namespace Numeral

/-- **The front of a numeral is a numeral**, unless it is the point alone. -/
theorem Spelled.left {u v : List Char} (h : Spelled (u ++ v)) (hne : u ≠ []) :
    Spelled u ∨ u = ['.'] := by
  generalize htext : u ++ v = text at h
  cases h with
  | whole _ hds =>
    subst htext
    exact .inl (.whole hne fun c hc => hds c (List.mem_append_left v hc))
  | @decimal ds fs hds_ne hds hfs =>
    rcases List.append_eq_append_iff.1 htext with ⟨more, rfl, -⟩ | ⟨more, rfl, hmore⟩
    · exact .inl (.whole hne fun c hc => hds c (List.mem_append_left more hc))
    · -- the front goes on behind the digits, from the point
      cases more with
      | nil =>
        rw [List.append_nil]
        exact .inl (.whole hds_ne hds)
      | cons c cs =>
        obtain ⟨rfl, rfl⟩ := List.cons.inj hmore
        exact .inl (.decimal hds_ne hds fun c hc => hfs c (List.mem_append_left v hc))
  | @fraction fs _ hfs =>
    obtain ⟨c, cs, rfl⟩ := List.exists_cons_of_ne_nil hne
    obtain ⟨rfl, rfl⟩ := List.cons.inj htext
    by_cases hcs : cs = []
    · exact .inr (by rw [hcs])
    · exact .inl (.fraction hcs fun c hc => hfs c (List.mem_append_left v hc))

end Numeral

namespace Lexeme

/-! ## Pieces before a place -/

/-- A row that is fine with much behind it is fine with less. -/
theorem Fine.replace {xs ys zs : List Lexeme} {back : List Char} (h : Fine (xs ++ ys))
    (hys : texts ys = texts zs ++ back) (hzs : Fine zs) : Fine (xs ++ zs) := by
  induction xs with
  | nil => exact hzs
  | cons x xs ih =>
    rw [List.cons_append] at h ⊢
    cases h with
    | cons hx h =>
      refine .cons ?_ (ih h)
      rw [texts_append, hys, ← List.append_assoc] at hx
      rw [texts_append]
      exact hx.left

/-- **The pieces before a place are those of the text up to there**, where the
last of them may be cut. -/
theorem pieces_before {s t u : List Char} {xs ys : List Lexeme} (h : pieces (s ++ t) = xs ++ ys)
    (hs : s = texts xs ++ u) : pieces s = xs ++ pieces u := by
  have hys : texts ys = texts (pieces u) ++ t := by
    have htexts : texts xs ++ texts ys = s ++ t := by rw [← texts_append, ← h, texts_pieces]
    rw [hs, List.append_assoc] at htexts
    rw [texts_pieces]
    exact List.append_cancel_left htexts
  have hfine := Fine.replace (h ▸ fine_pieces (s ++ t)) hys (fine_pieces u)
  have := pieces_texts hfine
  rwa [texts_append, texts_pieces, ← hs] at this

/-- **How the pieces of a text go on** when something is appended. -/
inductive Extends : List Lexeme → List Lexeme → Prop
  /-- They stay, and others follow. -/
  | behind (xs ys : List Lexeme) : Extends xs (xs ++ ys)
  /-- The last one is a number, which gets longer. -/
  | number (xs : List Lexeme) {text more : List Char} (ys : List Lexeme) :
      Extends (xs ++ [ofNumeral text]) (xs ++ ofNumeral (text ++ more) :: ys)
  /-- The last one is a point that was noise, and begins a number. -/
  | point (xs : List Lexeme) {digits : List Char} (ys : List Lexeme) :
      Extends (xs ++ [noiseOf '.']) (xs ++ ofNumeral ('.' :: digits) :: ys)

/-- **Pieces change only at the end of the text**, and only inside a
number. -/
theorem extends_pieces (s t : List Char) : Extends (pieces s) (pieces (s ++ t)) := by
  rcases exists_parted (texts_pieces (s ++ t)) with
    ⟨xs, ys, hls, hxs⟩ | ⟨xs, l, ys, u, v, hls, htext, hu, hv, hs⟩
  · rw [hls, (pieces_of_append hls hxs).1]
    exact .behind xs ys
  · have hfront : pieces s = xs ++ pieces u := pieces_before hls hs
    obtain ⟨text, rfl, hleads⟩ := (fits_of_pieces hls).of_parted htext hu hv
    obtain rfl : text = u ++ v := htext
    rw [hls, hfront]
    rcases hleads.spelled.left hu with hspelled | rfl
    · have hlast : pieces u = [ofNumeral u] := by
        have := pieces_of_fits (.number hspelled.leads)
        rwa [pieces_nil, List.append_nil] at this
      rw [hlast]
      exact .number xs ys
    · have hlast : pieces ['.'] = [noiseOf '.'] := by
        simpa [noiseOf] using pieces_of_fits (.point .nil)
      rw [hlast]
      exact .point xs ys

end Lexeme

open Lexeme

/-! ## Tokens that stay -/

/-- **The number that a text ends with**, right at its end. More digits would
be its own. -/
def unfinished? (s : List Char) : Option TokenSpan :=
  (tokenize s).getLast?.filter fun t => t.token.isNumber && t.span.stop == Utf8.size s

/-- **The settled tokens of a text**: all but an unfinished number. -/
def settled (s : List Char) : List TokenSpan :=
  if (unfinished? s).isSome then (tokenize s).dropLast else tokenize s

/-- A number that starts where another does, and does not end before a
place. -/
structure TokenSpan.GoesOn (t u : TokenSpan) (place : Nat) : Prop where
  number : u.token.isNumber
  start : u.span.start = t.span.start
  line : u.span.line = t.span.line
  column : u.span.column = t.span.column
  stop : place ≤ u.span.stop

section

variable {s : List Char} {u : TokenSpan}

theorem unfinished?_eq_some_iff : unfinished? s = some u ↔
    (tokenize s).getLast? = some u ∧ u.token.isNumber ∧ u.span.stop = Utf8.size s := by
  simp [unfinished?, Option.filter_eq_some_iff]

/-- The unfinished number is behind the settled tokens. -/
theorem tokenize_of_unfinished (h : unfinished? s = some u) : tokenize s = settled s ++ [u] := by
  rw [settled, h, Option.isSome_some, if_pos rfl]
  exact (List.dropLast_append_getLast? u (unfinished?_eq_some_iff.1 h).1).symm

theorem settled_of_finished (h : unfinished? s = none) : settled s = tokenize s := by
  rw [settled, h, Option.isSome_none, if_neg Bool.false_ne_true]

/-- A number right at the end is the unfinished one. -/
theorem unfinished?_of_last {ts : List TokenSpan} (h : tokenize s = ts ++ [u])
    (hnumber : u.token.isNumber) (hstop : u.span.stop = Utf8.size s) :
    unfinished? s = some u ∧ settled s = ts := by
  have hopen : unfinished? s = some u :=
    unfinished?_eq_some_iff.2 ⟨by rw [h, List.getLast?_concat], hnumber, hstop⟩
  exact ⟨hopen, List.append_cancel_right ((tokenize_of_unfinished hopen).symm.trans h)⟩

/-- Where all tokens end before the text does, none is unfinished. -/
theorem unfinished?_eq_none (h : ∀ t ∈ tokenize s, t.span.stop < Utf8.size s) :
    unfinished? s = none := by
  rw [Option.eq_none_iff_forall_ne_some]
  intro t ht
  obtain ⟨hlast, -, hstop⟩ := unfinished?_eq_some_iff.1 ht
  exact absurd hstop (h t (List.mem_of_getLast? hlast)).ne

end

/-- The token of a numeral behind a row. -/
def numberBehind (xs : List Lexeme) (text : List Char) : TokenSpan :=
  ⟨.number (Numeral.value text),
    .between (Cursor.start.past (texts xs)) ((Cursor.start.past (texts xs)).past text)⟩

theorem spans_numeral (xs : List Lexeme) (text : List Char) (ys : List Lexeme) :
    spans .start (xs ++ ofNumeral text :: ys) =
      spans .start xs ++ numberBehind xs text ::
        spans ((Cursor.start.past (texts xs)).past text) ys := by
  rw [spans_append, spans_cons]
  rfl

theorem stop_numberBehind (xs : List Lexeme) (text : List Char) :
    (numberBehind xs text).span.stop = Utf8.size (texts xs ++ text) := by
  simp [numberBehind, Span.between]

/-- **What more input cannot change.** The settled tokens of a text stay, each
with its span, whatever is appended. Where there is an unfinished number,
the next token is a number that starts in the same place and takes all that
the text had. -/
theorem tokenize_append (s t : List Char) :
    ∃ more, tokenize (s ++ t) = settled s ++ more ∧
      ∀ u ∈ unfinished? s, ∃ v ∈ more.head?, u.GoesOn v (Utf8.size s) := by
  have hnow := tokenize_eq_spans s
  have hthen := tokenize_eq_spans (s ++ t)
  have htexts := texts_pieces s
  have hextends := extends_pieces s t
  generalize pieces s = first at hnow htexts hextends
  generalize pieces (s ++ t) = later at hthen hextends
  cases hextends with
  | behind xs ys =>
    rw [spans_append, ← hnow] at hthen
    cases hopen : unfinished? s with
    | none => exact ⟨_, by rw [hthen, settled_of_finished hopen], by simp⟩
    | some u =>
      obtain ⟨-, hnumber, hstop⟩ := unfinished?_eq_some_iff.1 hopen
      rw [tokenize_of_unfinished hopen, List.append_assoc] at hthen
      refine ⟨_, hthen, fun w hw => ⟨u, rfl, ?_⟩⟩
      obtain rfl := Option.some.inj hw
      exact ⟨hnumber, rfl, rfl, rfl, hstop.ge⟩
  | @number xs text more ys =>
    have hsize : (numberBehind xs text).span.stop = Utf8.size s := by
      rw [stop_numberBehind, ← htexts, texts_append, texts_cons, texts_nil, List.append_nil]
      rfl
    rw [spans_numeral, spans_nil] at hnow
    rw [spans_numeral] at hthen
    obtain ⟨hopen, hsettled⟩ := unfinished?_of_last hnow rfl hsize
    refine ⟨_, hsettled ▸ hthen, fun w hw => ⟨numberBehind xs (text ++ more), rfl, ?_⟩⟩
    obtain rfl := Option.some.inj (hopen.symm.trans hw)
    refine ⟨rfl, rfl, rfl, rfl, ?_⟩
    rw [← hsize, stop_numberBehind, stop_numberBehind, ← List.append_assoc, Utf8.size_append _ more]
    exact Nat.le_add_right _ _
  | @point xs digits ys =>
    -- the point is noise as yet, and all tokens end before it
    have hrow : tokenize s = spans .start xs := by
      rw [hnow, spans_append]
      exact List.append_nil _
    have hsize : Utf8.size s = Utf8.size (texts xs) + 1 := by
      rw [← htexts, texts_append, Utf8.size_append]
      rfl
    have hopen : unfinished? s = none := unfinished?_eq_none fun t ht => by
      have hbefore := (bounds_of_mem_spans (hrow ▸ ht)).2
      rw [Cursor.offset_start] at hbefore
      omega
    rw [spans_numeral, ← hrow, ← settled_of_finished hopen] at hthen
    exact ⟨_, hthen, by simp [hopen]⟩

/-- A number that ends in a point is not finished, and what stands before it
is settled. -/
theorem tokenize_append_places :
    settled ['x', '1', '.'] = [⟨.operator .multiply, ⟨0, 1, 1, 1⟩⟩] ∧
      ∃ u ∈ unfinished? ['x', '1', '.'], u.span = ⟨1, 3, 1, 2⟩ ∧
        ∃ more, tokenize ['x', '1', '.', '5'] = ⟨.operator .multiply, ⟨0, 1, 1, 1⟩⟩ :: more ∧
          ∃ v ∈ more.head?, u.GoesOn v 3 := by
  have hsettled : settled ['x', '1', '.'] = [⟨.operator .multiply, ⟨0, 1, 1, 1⟩⟩] := by
    decide +kernel
  have hopen : unfinished? ['x', '1', '.'] =
      some ⟨.number (Numeral.value ['1', '.']), ⟨1, 3, 1, 2⟩⟩ := by decide +kernel
  obtain ⟨more, htokens, hgoes⟩ := tokenize_append ['x', '1', '.'] ['5']
  refine ⟨hsettled, _, hopen, rfl, more, ?_, hgoes _ hopen⟩
  rw [hsettled] at htokens
  exact htokens

end Abacus
