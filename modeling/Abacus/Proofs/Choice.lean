import Abacus.Proofs.Pieces
import Abacus.Tokenizer
import Mathlib.Data.List.Pairwise

/-!
# Choices — the order in which lexemes are tried

Numbers, operators and parentheses are tried one after another, and the
first that is found is taken. Yet none of the three finds anything where
another does (`pairwise_recognizers`), since each is told by the first
character, and a number by the one behind a point as well
(`number_accepts_iff`, `operator_accepts_iff`, `parenthesis_accepts_iff`).
So their order does not matter, as long as noise comes last
(`choice_perm`): a scan in any order finds the same lexemes in the same
places.
-/

namespace Abacus

namespace Recognizer

variable {α : Type} {rs more : List (Recognizer α)} {input : List Char} {m : Match α}

/-- A recognizer finds something in front of a text. -/
def Accepts (r : Recognizer α) (input : List Char) : Prop := ∃ m, r input = .ok m

/-- Recognizers agree on a text if no two of them find different things. -/
def Agree (rs : List (Recognizer α)) (input : List Char) : Prop :=
  ∀ r ∈ rs, ∀ s ∈ rs, ∀ m n, r input = .ok m → s input = .ok n → m = n

/-- Recognizers of which no two find anything agree. -/
theorem Agree.of_pairwise
    (h : rs.Pairwise fun r s => ¬ (r.Accepts input ∧ s.Accepts input)) : Agree rs input := by
  intro r hr s hs m n hm hn
  by_cases hrs : r = s
  · subst hrs
    exact Except.ok.inj (hm.symm.trans hn)
  · have hsymm : Std.Symm fun r s : Recognizer α => ¬ (r.Accepts input ∧ s.Accepts input) :=
      ⟨fun _ _ h ⟨hs, hr⟩ => h ⟨hr, hs⟩⟩
    exact absurd ⟨⟨m, hm⟩, ⟨n, hn⟩⟩ (h.forall hr hs hrs)

theorem not_accepts_iff {r : Recognizer α} : ¬ r.Accepts input ↔ ∃ t, r input = .error t := by
  unfold Accepts
  cases r input <;> simp

/-- **What a choice finds** where the first alternatives agree: what one of
them does, or else what the others choose. -/
theorem firstOf_append_ok_iff (hagree : Agree rs input) (t : Trail) :
    firstOf (rs ++ more) t input = .ok m ↔
      (∃ r ∈ rs, r input = .ok m) ∨ ((∀ r ∈ rs, ¬ r.Accepts input) ∧ oneOf more input = .ok m) := by
  induction rs generalizing t with
  | nil =>
    simp only [List.nil_append, List.not_mem_nil, false_and, exists_false, false_or,
      false_implies, implies_true, true_and]
    exact ⟨firstOf_ok_congr more t [], firstOf_ok_congr more [] t⟩
  | cons r rs ih =>
    have hrest : Agree rs input := fun s hs u hu =>
      hagree s (List.mem_cons_of_mem r hs) u (List.mem_cons_of_mem r hu)
    rw [List.cons_append, firstOf]
    dsimp only
    cases hr : r input with
    | error u =>
      have hnot : ¬ r.Accepts input := not_accepts_iff.2 ⟨u, hr⟩
      simp [ih hrest u, hr, hnot]
    | ok n =>
      have haccepts : r.Accepts input := ⟨n, hr⟩
      constructor
      · intro h
        exact .inl ⟨r, List.mem_cons_self, h ▸ hr⟩
      · rintro (⟨s, hs, h⟩ | ⟨hnone, -⟩)
        · exact congrArg Except.ok (hagree r List.mem_cons_self s hs n m hr h)
        · exact absurd haccepts (hnone r List.mem_cons_self)

/-- **Alternatives that agree may be tried in any order.** -/
theorem oneOf_perm {ss : List (Recognizer α)} (hperm : rs.Perm ss) (hagree : Agree rs input)
    (h : oneOf (rs ++ more) input = .ok m) : oneOf (ss ++ more) input = .ok m := by
  have hagree' : Agree ss input := fun r hr s hs =>
    hagree r (hperm.mem_iff.2 hr) s (hperm.mem_iff.2 hs)
  rw [oneOf, firstOf_append_ok_iff hagree] at h
  rw [oneOf, firstOf_append_ok_iff hagree']
  simpa only [hperm.mem_iff] using h

end Recognizer

namespace Lexeme

open Recognizer

/-! ## What each recognizer accepts -/

/-- No number begins a text that begins with no digit, and with no point
before a digit. -/
theorem absent_cons_iff {c : Char} {cs : List Char} :
    Numeral.Absent (c :: cs) ↔ c.isDigit = false ∧ (c = '.' → Stops Char.isDigit cs) := by
  rw [Numeral.Absent, Stops.cons]
  refine and_congr_right fun _ => ⟨fun h hc => h cs (by rw [hc]), fun h rest hrest => ?_⟩
  obtain ⟨rfl, rfl⟩ := List.cons.inj hrest
  exact h rfl

theorem number_accepts_iff {c : Char} {cs : List Char} :
    number.Accepts (c :: cs) ↔ c.isDigit ∨ (c = '.' ∧ ∃ d ∈ cs.head?, d.isDigit) := by
  rw [Accepts, exists_number_iff, absent_cons_iff, Stops]
  by_cases hc : c.isDigit <;> simp [hc]

theorem operator_accepts_iff {c : Char} {cs : List Char} :
    operator.Accepts (c :: cs) ↔ ∃ o : Operator, c = o.glyph := by
  constructor
  · intro h
    by_contra hnone
    push Not at hnone
    exact not_accepts_iff.2 (operator_error fun o => by simpa using hnone o) h
  · rintro ⟨o, rfl⟩
    exact ⟨_, operator_glyph o cs⟩

theorem parenthesis_accepts_iff {c : Char} {cs : List Char} :
    parenthesis.Accepts (c :: cs) ↔ ∃ p : Parenthesis, c = p.glyph := by
  constructor
  · intro h
    by_contra hnone
    push Not at hnone
    exact not_accepts_iff.2 (parenthesis_error fun p => by simpa using hnone p) h
  · rintro ⟨p, rfl⟩
    exact ⟨_, parenthesis_glyph p cs⟩

/-- **No two of the three find anything in the same place.** -/
theorem pairwise_recognizers (c : Char) (cs : List Char) :
    [number, operator, parenthesis].Pairwise fun r s =>
      ¬ (r.Accepts (c :: cs) ∧ s.Accepts (c :: cs)) := by
  have hnumeric : number.Accepts (c :: cs) → Glyph.isNumeric c := fun h => by
    rcases number_accepts_iff.1 h with hc | ⟨rfl, -⟩
    · exact Glyph.isNumeric_of_isDigit hc
    · rfl
  simp only [List.pairwise_cons, List.mem_cons, List.not_mem_nil, or_false, forall_eq_or_imp,
    forall_eq, false_implies, implies_true, List.Pairwise.nil, and_true]
  refine ⟨⟨fun ⟨hn, ho⟩ => ?_, fun ⟨hn, hp⟩ => ?_⟩, fun ⟨ho, hp⟩ => ?_⟩
  · obtain ⟨o, rfl⟩ := operator_accepts_iff.1 ho
    exact absurd (hnumeric hn) (by cases o <;> decide)
  · obtain ⟨p, rfl⟩ := parenthesis_accepts_iff.1 hp
    exact absurd (hnumeric hn) (by cases p <;> decide)
  · obtain ⟨o, rfl⟩ := operator_accepts_iff.1 ho
    obtain ⟨p, hop⟩ := parenthesis_accepts_iff.1 hp
    cases o <;> cases p <;> simp [Operator.glyph, Parenthesis.glyph] at hop

/-- A symbol recognizer finds something exactly at its glyphs. -/
theorem isSymbol_iff_accepts {c : Char} (cs : List Char) :
    Glyph.isSymbol c ↔ operator.Accepts (c :: cs) ∨ parenthesis.Accepts (c :: cs) := by
  rw [Glyph.isSymbol_iff, operator_accepts_iff, parenthesis_accepts_iff]
  simp only [Token.ofGlyph?_eq_some_iff]
  constructor
  · rintro ⟨t, ⟨o, rfl, -⟩ | ⟨p, rfl, -⟩⟩
    · exact .inl ⟨o, rfl⟩
    · exact .inr ⟨p, rfl⟩
  · rintro (⟨o, rfl⟩ | ⟨p, rfl⟩)
    · exact ⟨_, .inl ⟨o, rfl, rfl⟩⟩
    · exact ⟨_, .inr ⟨p, rfl, rfl⟩⟩

/-- **What the recognizers find in front of a text**, told by its first
character, and by the next one behind a point. -/
structure Distinguished (c : Char) (cs : List Char) : Prop where
  /-- At a glyph, one of the two symbol recognizers finds it. -/
  at_symbol : Glyph.isSymbol c →
    (operator.Accepts (c :: cs) ∧ ¬ parenthesis.Accepts (c :: cs)) ∨
      (parenthesis.Accepts (c :: cs) ∧ ¬ operator.Accepts (c :: cs))
  /-- Elsewhere, neither does. -/
  elsewhere : Glyph.isSymbol c = false →
    ¬ operator.Accepts (c :: cs) ∧ ¬ parenthesis.Accepts (c :: cs)
  /-- A number begins with a digit, or with a point before one. -/
  number_iff : number.Accepts (c :: cs) ↔ c.isDigit ∨ (c = '.' ∧ ∃ d ∈ cs.head?, d.isDigit)
  /-- One of the three at most finds something. -/
  exclusive : [number, operator, parenthesis].Pairwise fun r s =>
    ¬ (r.Accepts (c :: cs) ∧ s.Accepts (c :: cs))
  /-- None does before what is outside the alphabet, and at a point before no
  digit. -/
  none_iff : (∀ r ∈ [number, operator, parenthesis], ¬ r.Accepts (c :: cs)) ↔
    Glyph.isRecognized c = false ∨ (c = '.' ∧ ∀ d ∈ cs.head?, d.isDigit = false)
  /-- Then noise is the longest run outside the alphabet. -/
  noise_outside : Glyph.isRecognized c = false → noise (c :: cs) =
    .ok ⟨(c :: cs).takeWhile (fun d => !Glyph.isRecognized d), (),
      (c :: cs).dropWhile (fun d => !Glyph.isRecognized d)⟩
  /-- Or it is the point. -/
  noise_point : c = '.' → noise (c :: cs) = .ok ⟨['.'], (), cs⟩

theorem distinguished (c : Char) (cs : List Char) : Distinguished c cs where
  at_symbol h := by
    have hpair := pairwise_recognizers c cs
    simp only [List.pairwise_cons, List.mem_cons, forall_eq_or_imp] at hpair
    have hboth : ¬ (operator.Accepts (c :: cs) ∧ parenthesis.Accepts (c :: cs)) := hpair.2.1.1
    rcases (isSymbol_iff_accepts cs).1 h with ho | hp
    · exact .inl ⟨ho, fun hp => hboth ⟨ho, hp⟩⟩
    · exact .inr ⟨hp, fun ho => hboth ⟨ho, hp⟩⟩
  elsewhere h := by
    rw [← not_or, ← isSymbol_iff_accepts cs, h]
    exact Bool.false_ne_true
  number_iff := number_accepts_iff
  exclusive := pairwise_recognizers c cs
  none_iff := by
    have hsymbols : (¬ operator.Accepts (c :: cs) ∧ ¬ parenthesis.Accepts (c :: cs)) ↔
        Glyph.isSymbol c = false := by
      rw [← not_or, ← isSymbol_iff_accepts cs, Bool.not_eq_true]
    simp only [List.mem_cons, List.not_mem_nil, or_false, forall_eq_or_imp, forall_eq, hsymbols,
      number_accepts_iff]
    by_cases hc : c = '.'
    · have hsymbol : Glyph.isSymbol '.' = false := rfl
      have hrecognized : Glyph.isRecognized '.' := rfl
      have hdigit : Char.isDigit '.' = false := rfl
      simp [hc, hsymbol, hrecognized, hdigit]
    · simp [hc, Glyph.isRecognized, Glyph.isNumeric]
  noise_outside h := noise_not_recognized h cs
  noise_point h := by
    subst h
    exact noise_recognized rfl

/-! ## Any order -/

theorem ofToken_accepts_iff {r : Recognizer Token} {input : List Char} :
    (ofToken r).Accepts input ↔ r.Accepts input := by
  unfold Accepts ofToken
  cases r input <;> simp

/-- So they agree wherever something is left. -/
theorem agree_recognizers (c : Char) (cs : List Char) :
    Agree ([Alternative.number, .operator, .parenthesis].map Alternative.recognize) (c :: cs) :=
  .of_pairwise <| (pairwise_recognizers c cs).map ofToken fun r s h => by
    rwa [ofToken_accepts_iff, ofToken_accepts_iff]

theorem next_ok_iff {alternatives : List Alternative} {input : List Char} {m : Match Lexeme} :
    next alternatives input = .ok m ↔
      oneOf (alternatives.map Alternative.recognize) input = .ok m := by
  rw [next, labelled]
  cases oneOf (alternatives.map Alternative.recognize) input <;> simp

variable {as : List Alternative}

/-- **The next lexeme is the same in any order**, if noise comes last. -/
theorem next_perm (has : as.Perm [.number, .operator, .parenthesis]) {l : Lexeme}
    {rest : List Char} (h : l.Leads rest) :
    next (as ++ [.noise]) (l.text ++ rest) = .ok ⟨l.text, l, rest⟩ := by
  have hnext := next_ok_iff.1 (next_of_leads h)
  obtain ⟨c, cs, htext⟩ := List.exists_cons_of_ne_nil h.ne_nil
  rw [next_ok_iff, List.map_append]
  rw [htext, List.cons_append] at hnext ⊢
  exact oneOf_perm (has.map Alternative.recognize).symm (agree_recognizers c (cs ++ rest)) hnext

/-- **So is the whole cut.** -/
theorem cut_perm (has : as.Perm [.number, .operator, .parenthesis]) (input : List Char) :
    cut (as ++ [.noise]) input = cut Alternative.inOrder input := by
  induction input using text_induction with
  | nil => rw [cut_nil, cut_nil]
  | lead l rest h ih => rw [cut_of_next h.ne_nil (next_perm has h), cut_of_leads h, ih]

end Lexeme

/-- A scan by alternatives in some order: the state it leaves, and the
tokens with their spans. -/
def Tokenizer.tokenizeBy (alternatives : List Lexeme.Alternative) (t : Tokenizer)
    (input : List Char) : Tokenizer × List TokenSpan :=
  let placed := t.scanBy alternatives input
  (t.after placed, placed.filterMap Placed.tokenSpan?)

open Lexeme

/-- **The recognizers exclude each other, and their order does not matter.**
In front of any text each finds what the classes of characters say, and no
two find something in the same place. So with numbers, operators and
parentheses tried in any order, and noise last, every scan comes to the
same tokens with the same spans and leaves the same tokenizer. -/
theorem choice_perm :
    (∀ c cs, Distinguished c cs) ∧
      ∀ as : List Alternative, as.Perm [.number, .operator, .parenthesis] →
        ∀ (t : Tokenizer) (input : List Char),
          t.tokenizeBy (as ++ [.noise]) input = t.tokenize input := by
  refine ⟨distinguished, fun as has t input => ?_⟩
  rw [Tokenizer.tokenizeBy, Tokenizer.scanBy, cut_perm has]
  rfl

/-- Parentheses may be tried first. -/
theorem choice_perm_parentheses_first :
    [Alternative.parenthesis, .number, .operator].Perm [.number, .operator, .parenthesis] ∧
      (Tokenizer.new.tokenizeBy [.parenthesis, .number, .operator, .noise] ['(', '.', '5', '.']) =
        (⟨⟨4, 1, 5⟩, 1⟩, [⟨.parenthesis .opening, ⟨0, 1, 1, 1⟩⟩,
          ⟨.number (Numeral.value ['.', '5']), ⟨1, 3, 1, 2⟩⟩]) := by
  have hperm : [Alternative.parenthesis, .number, .operator].Perm
      [.number, .operator, .parenthesis] :=
    (List.Perm.swap _ _ _).trans ((List.Perm.swap _ _ _).cons _)
  refine ⟨hperm, (choice_perm.2 _ hperm .new ['(', '.', '5', '.']).trans ?_⟩
  decide +kernel

end Abacus
