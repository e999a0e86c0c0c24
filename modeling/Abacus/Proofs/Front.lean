import Abacus.Lexeme
import Mathlib.Data.List.TakeWhile
import Mathlib.Tactic.Common

/-!
# Fronts — what a text begins with

A text that is not empty begins with exactly one lexeme. `Lexeme.Leads`
says which, by what the lexeme is made of and by how the text goes on
behind it, and says nothing of the order in which lexemes are tried. The
file proves that the choice of recognizers finds that lexeme
(`next_of_leads`) and that there always is one (`exists_leads`). So a cut
goes on behind a lexeme as if the text began there (`cut_of_leads`).
-/

namespace Abacus

/-! ## Glyphs -/

namespace Token

/-- The token that a glyph is by itself. -/
def ofGlyph? : Char → Option Token
  | '+' => some (.operator .add)
  | '-' => some (.operator .subtract)
  | 'x' => some (.operator .multiply)
  | '/' => some (.operator .divide)
  | '(' => some (.parenthesis .opening)
  | ')' => some (.parenthesis .closing)
  | _ => none

/-- A glyph that is a token by itself is that of an operator or of a
parenthesis. -/
theorem ofGlyph?_eq_some_iff {c : Char} {t : Token} : ofGlyph? c = some t ↔
    (∃ o : Operator, c = o.glyph ∧ t = .operator o) ∨
      ∃ p : Parenthesis, c = p.glyph ∧ t = .parenthesis p := by
  constructor
  · intro h
    unfold ofGlyph? at h
    split at h <;> simp only [Option.some.injEq, reduceCtorEq] at h <;> subst h
    · exact .inl ⟨.add, rfl, rfl⟩
    · exact .inl ⟨.subtract, rfl, rfl⟩
    · exact .inl ⟨.multiply, rfl, rfl⟩
    · exact .inl ⟨.divide, rfl, rfl⟩
    · exact .inr ⟨.opening, rfl, rfl⟩
    · exact .inr ⟨.closing, rfl, rfl⟩
  · rintro (⟨o, rfl, rfl⟩ | ⟨p, rfl, rfl⟩)
    · cases o <;> rfl
    · cases p <;> rfl

/-- A glyph that is a token by itself is an operator or a parenthesis. -/
theorem isNumber_of_ofGlyph? {c : Char} {t : Token} (h : ofGlyph? c = some t) :
    t.isNumber = false := by
  rcases ofGlyph?_eq_some_iff.1 h with ⟨o, -, rfl⟩ | ⟨p, -, rfl⟩ <;> rfl

/-- So it is no number. -/
theorem ofGlyph?_ne_number (c : Char) (v : Binary64) : ofGlyph? c ≠ some (.number v) := by
  intro h
  have hnumber := isNumber_of_ofGlyph? h
  cases hnumber

end Token

namespace Glyph

theorem isSome_ofGlyph? (c : Char) : (Token.ofGlyph? c).isSome = isSymbol c := by
  unfold Token.ofGlyph?
  split <;> simp_all [isSymbol]

/-- A glyph is the character of some token. -/
theorem isSymbol_iff {c : Char} : isSymbol c ↔ ∃ t, Token.ofGlyph? c = some t := by
  rw [← isSome_ofGlyph?, Option.isSome_iff_exists]

theorem isSymbol_eq_false_iff {c : Char} : isSymbol c = false ↔ Token.ofGlyph? c = none := by
  rw [← isSome_ofGlyph?, Option.isSome_eq_false_iff, Option.isNone_iff_eq_none]

/-- **No character is of two kinds**: what is a token by itself may not
stand inside a number. -/
theorem isNumeric_of_isSymbol {c : Char} (h : isSymbol c) : isNumeric c = false := by
  simp only [isSymbol, List.contains_eq_mem, List.mem_cons, List.not_mem_nil, or_false,
    decide_eq_true_eq] at h
  rcases h with rfl | rfl | rfl | rfl | rfl | rfl <;> decide

theorem isNumeric_of_isDigit {c : Char} (h : c.isDigit) : isNumeric c := by
  simp [isNumeric, h]

/-- A number has digits and points in it. -/
theorem isNumeric_iff {c : Char} : isNumeric c ↔ c.isDigit ∨ c = '.' := by
  simp [isNumeric]

/-- What is not noise is of a number or a glyph. -/
theorem isRecognized_iff {c : Char} : isRecognized c ↔ isNumeric c ∨ isSymbol c := by
  simp [isRecognized]

/-- What is outside the alphabet is no part of a number. -/
theorem isNumeric_of_not_isRecognized {c : Char} (h : isRecognized c = false) :
    isNumeric c = false := by
  simp only [isRecognized, Bool.or_eq_false_iff] at h
  exact h.1

end Glyph

/-! ## Where runs stop -/

/-- A run of a class ends before a text: the text is empty, or its first
character is not of the class. -/
def Stops (p : Char → Bool) (rest : List Char) : Prop := ∀ c ∈ rest.head?, p c = false

namespace Stops

variable {p q : Char → Bool} {rest : List Char}

@[simp] theorem nil : Stops p [] := by simp [Stops]

@[simp] theorem cons {c : Char} : Stops p (c :: rest) ↔ p c = false := by simp [Stops]

/-- A class that holds less stops no later. -/
theorem mono (hpq : ∀ c, p c → q c) (h : Stops q rest) : Stops p rest := by
  intro c hc
  have hq := h c hc
  by_contra hp
  simp [hpq c (by simpa using hp)] at hq

/-- Digits stop where all that makes numbers stops. -/
theorem isDigit (h : Stops Glyph.isNumeric rest) : Stops Char.isDigit rest :=
  h.mono fun _ => Glyph.isNumeric_of_isDigit

/-- What stops before a text stops before the front of it. -/
theorem left {front back : List Char} (h : Stops p (front ++ back)) : Stops p front := by
  cases front with
  | nil => exact nil
  | cons c cs => exact h

/-- A text in two parts stops a run if both do: the first may be empty. -/
theorem append {front back : List Char} (hfront : Stops p front) (hback : Stops p back) :
    Stops p (front ++ back) := by
  cases front with
  | nil => exact hback
  | cons c cs => exact hfront

/-- **A run ends where the text behind it stops it.** -/
theorem takeWhile_append {run : List Char} (hrun : ∀ c ∈ run, p c) (h : Stops p rest) :
    (run ++ rest).takeWhile p = run := by
  rw [List.takeWhile_append_of_pos hrun]
  cases rest with
  | nil => simp
  | cons c cs => simp [cons.1 h]

/-- And what is left is that text. -/
theorem dropWhile_append {run : List Char} (hrun : ∀ c ∈ run, p c) (h : Stops p rest) :
    (run ++ rest).dropWhile p = rest := by
  rw [List.dropWhile_append_of_pos hrun]
  cases rest with
  | nil => rfl
  | cons c cs => simp [cons.1 h]

/-- Where no run stops, one begins. -/
theorem takeWhile_ne_nil {text : List Char} (h : ¬ Stops p text) : text.takeWhile p ≠ [] := by
  cases text with
  | nil => exact absurd .nil h
  | cons c cs => simp_all

/-- What is left behind a run stops it. -/
theorem dropWhile (p : Char → Bool) (text : List Char) : Stops p (text.dropWhile p) := by
  intro c hc
  have := List.head?_dropWhile_not p text
  rw [Option.mem_def.1 hc] at this
  simpa using this

end Stops

/-! ## The recognizers on a run that stops -/

namespace Recognizer

variable {α β : Type} {p : Char → Bool} {rest : List Char}

theorem run_append {text : List Char} (htext : ∀ c ∈ text, p c) (hrest : Stops p rest) :
    run p (text ++ rest) = .ok ⟨text, (), rest⟩ := by
  rw [run, hrest.takeWhile_append htext, hrest.dropWhile_append htext]

/-- The same where a run may not be empty. -/
theorem runSome_append {text : List Char} (w : Expectation) (hne : text ≠ [])
    (htext : ∀ c ∈ text, p c) (hrest : Stops p rest) :
    runSome p w (text ++ rest) = .ok ⟨text, (), rest⟩ := by
  rw [runSome, hrest.takeWhile_append htext, run_append htext hrest]
  simp [hne]

/-- And it fails where the text stops it at once. -/
theorem runSome_of_stops {w : Expectation} (h : Stops p rest) :
    runSome p w rest = .error [⟨rest, w⟩] := by
  have := h.takeWhile_append (show ∀ c ∈ ([] : List Char), p c by simp)
  simp only [List.nil_append] at this
  simp [runSome, this]

theorem char_self (c : Char) : char c (c :: rest) = .ok ⟨[c], (), rest⟩ := by simp [char]

theorem char_of_head?_ne {c : Char} (h : rest.head? ≠ some c) :
    char c rest = .error [⟨rest, .char c⟩] := by
  cases rest with
  | nil => rfl
  | cons d ds => simp [char, show d ≠ c by simpa using h]

/-- One recognizer after another succeeds as both do. -/
theorem followedBy_ok {r : Recognizer α} {s : Recognizer β} {input : List Char} {m : Match α}
    {n : Match β} (hr : r input = .ok m) (hs : s m.rest = .ok n) :
    r.followedBy s input = .ok ⟨m.text ++ n.text, (), n.rest⟩ := by
  simp [followedBy, hr, hs]

/-- Two recognizers in a row fail with the trail of the first. -/
theorem followedBy_error_left {r : Recognizer α} {s : Recognizer β} {input : List Char} {t : Trail}
    (hr : r input = .error t) : r.followedBy s input = .error t := by
  simp [followedBy, hr]

/-- Or with that of the second, where the first has left it. -/
theorem followedBy_error_right {r : Recognizer α} {s : Recognizer β} {input : List Char}
    {m : Match α} {t : Trail} (hr : r input = .ok m) (hs : s m.rest = .error t) :
    r.followedBy s input = .error t := by
  simp [followedBy, hr, hs]

/-- An alternative that matches is taken. -/
theorem oneOf_cons_ok {r : Recognizer α} {rs : List (Recognizer α)} {input : List Char}
    {m : Match α} (h : r input = .ok m) : oneOf (r :: rs) input = .ok m := by
  simp [oneOf, firstOf, h]

/-- What was wanted before does not change what is found later. -/
theorem firstOf_ok_congr (rs : List (Recognizer α)) (t u : Trail) {input : List Char} {m : Match α}
    (h : firstOf rs t input = .ok m) : firstOf rs u input = .ok m := by
  cases rs with
  | nil => simp [firstOf] at h
  | cons r rs => exact h

/-- One that fails is passed by, and its trail is lost. -/
theorem oneOf_cons_skip {r : Recognizer α} {rs : List (Recognizer α)} {input : List Char}
    {t : Trail} {m : Match α} (hr : r input = .error t) (h : oneOf rs input = .ok m) :
    oneOf (r :: rs) input = .ok m := by
  have := firstOf_ok_congr rs [] t h
  simpa [oneOf, firstOf, hr] using this

/-- **If every alternative fails, the choice tells of the last one**, and
that none was left. -/
theorem oneOf_error {rs : List (Recognizer α)} {last : Recognizer α} {input : List Char} {u : Trail}
    (h : ∀ r ∈ rs, ∃ t, r input = .error t) (hlast : last input = .error u) :
    oneOf (rs ++ [last]) input = .error (u ++ [⟨input, .alternatives⟩]) := by
  have hfirst : ∀ t, firstOf (rs ++ [last]) t input = .error (u ++ [⟨input, .alternatives⟩]) := by
    induction rs with
    | nil => simp [firstOf, hlast]
    | cons r rs ih =>
      obtain ⟨v, hv⟩ := h r List.mem_cons_self
      intro t
      simpa only [List.cons_append, firstOf, hv] using
        ih (fun s hs => h s (List.mem_cons_of_mem r hs)) v
  exact hfirst []

end Recognizer

/-! ## Numbers -/

namespace Numeral

/-- **A number ends before a text**: its text is a whole number, and no
digit and no point follows, or it has its point, and no digit follows. -/
inductive Leads : List Char → List Char → Prop
  /-- Digits alone. A point behind them would be theirs. -/
  | whole {ds rest : List Char} : ds ≠ [] → (∀ c ∈ ds, c.isDigit) → Stops Glyph.isNumeric rest →
      Leads ds rest
  /-- Digits, a point and further digits, if any. -/
  | decimal {ds fs rest : List Char} : ds ≠ [] → (∀ c ∈ ds, c.isDigit) → (∀ c ∈ fs, c.isDigit) →
      Stops Char.isDigit rest → Leads (ds ++ '.' :: fs) rest
  /-- A point and digits. -/
  | fraction {fs rest : List Char} : fs ≠ [] → (∀ c ∈ fs, c.isDigit) → Stops Char.isDigit rest →
      Leads ('.' :: fs) rest

/-- No number begins a text: it begins with no digit, and with no point
before a digit. -/
def Absent (input : List Char) : Prop :=
  Stops Char.isDigit input ∧ ∀ rest, input = '.' :: rest → Stops Char.isDigit rest

/-- What is missing where no number begins: a digit behind a point, or else
the point. -/
def missing : List Char → Complaint
  | '.' :: rest => ⟨rest, .digit⟩
  | input => ⟨input, .char '.'⟩

/-- A number's text is not empty. -/
theorem Leads.ne_nil {text rest : List Char} (h : Leads text rest) : text ≠ [] := by
  cases h <;> simp_all

/-- A number's text is digits and points. -/
theorem Leads.isNumeric {text rest : List Char} (h : Leads text rest) :
    ∀ c ∈ text, Glyph.isNumeric c := by
  intro c hc
  cases h with
  | whole _ hds _ => exact Glyph.isNumeric_of_isDigit (hds c hc)
  | decimal _ hds hfs _ =>
    rcases List.mem_append.1 hc with hc | hc
    · exact Glyph.isNumeric_of_isDigit (hds c hc)
    · rcases List.mem_cons.1 hc with rfl | hc
      · rfl
      · exact Glyph.isNumeric_of_isDigit (hfs c hc)
  | fraction _ hfs _ =>
    rcases List.mem_cons.1 hc with rfl | hc
    · rfl
    · exact Glyph.isNumeric_of_isDigit (hfs c hc)

/-- A number ends before the front of what it ends before. -/
theorem Leads.left {text front back : List Char} (h : Leads text (front ++ back)) :
    Leads text front := by
  cases h with
  | whole hne hds hrest => exact .whole hne hds hrest.left
  | decimal hne hds hfs hrest => exact .decimal hne hds hfs hrest.left
  | fraction hne hfs hrest => exact .fraction hne hfs hrest.left

/-- And before more, if that goes on with nothing that makes numbers. -/
theorem Leads.append {text front back : List Char} (h : Leads text front)
    (hback : Stops Glyph.isNumeric back) : Leads text (front ++ back) := by
  cases h with
  | whole hne hds hrest => exact .whole hne hds (hrest.append hback)
  | decimal hne hds hfs hrest => exact .decimal hne hds hfs (hrest.append hback.isDigit)
  | fraction hne hfs hrest => exact .fraction hne hfs (hrest.append hback.isDigit)

/-- **A text that a number begins is cut behind its longest number.** -/
theorem exists_leads {input : List Char} (h : ¬ Absent input) :
    ∃ text rest, Leads text rest ∧ text ++ rest = input := by
  by_cases hd : Stops Char.isDigit input
  · -- no digit in front, so there is a point, and digits behind it
    obtain ⟨after, rfl, hafter⟩ : ∃ after, input = '.' :: after ∧ ¬ Stops Char.isDigit after := by
      by_contra hno
      exact h ⟨hd, fun rest hrest => by_contra fun hs => hno ⟨rest, hrest, hs⟩⟩
    exact ⟨'.' :: after.takeWhile Char.isDigit, after.dropWhile Char.isDigit,
      .fraction (Stops.takeWhile_ne_nil hafter) (fun c hc => List.mem_takeWhile_imp hc)
        (Stops.dropWhile _ _), by simp⟩
  · have hne := Stops.takeWhile_ne_nil hd
    have hds : ∀ c ∈ input.takeWhile Char.isDigit, c.isDigit := fun c hc => List.mem_takeWhile_imp hc
    have hrest := Stops.dropWhile Char.isDigit input
    have happ : input.takeWhile Char.isDigit ++ input.dropWhile Char.isDigit = input :=
      List.takeWhile_append_dropWhile
    -- what follows the first digits decides whether there is a point
    rcases hr : input.dropWhile Char.isDigit with - | ⟨c, cs⟩
    · exact ⟨_, [], .whole hne hds .nil, by rw [← hr]; exact happ⟩
    · rw [hr] at hrest happ
      by_cases hc : c = '.'
      · subst hc
        refine ⟨input.takeWhile Char.isDigit ++ '.' :: cs.takeWhile Char.isDigit,
          cs.dropWhile Char.isDigit,
          .decimal hne hds (fun c hc => List.mem_takeWhile_imp hc) (Stops.dropWhile _ cs), ?_⟩
        rw [List.append_assoc, List.cons_append, List.takeWhile_append_dropWhile]
        exact happ
      · refine ⟨_, c :: cs, .whole hne hds (Stops.cons.2 ?_), happ⟩
        simp [Glyph.isNumeric, hc, Stops.cons.1 hrest]

end Numeral

/-! ## What the recognizers find -/

namespace Lexeme

open Recognizer

/-- A number as a lexeme: its text and its value. -/
def ofNumeral (text : List Char) : Lexeme := ⟨text, some (.number (Numeral.value text))⟩

/-- **A numeral in front is taken as a whole.** -/
theorem numberRun_of_leads {text rest : List Char} (h : Numeral.Leads text rest) :
    numberRun (text ++ rest) = .ok ⟨text, (), rest⟩ := by
  unfold numberRun labelled
  cases h with
  | whole hne hds hrest =>
    -- no point follows, so the optional part takes nothing
    have hpoint : ((char '.').followedBy (run Char.isDigit)) rest = .error [⟨rest, .char '.'⟩] := by
      refine followedBy_error_left (char_of_head?_ne fun hhead => ?_)
      have := hrest '.' hhead
      simp [Glyph.isNumeric] at this
    have hfirst := followedBy_ok (runSome_append .digit hne hds hrest.isDigit)
      (show optionally ((char '.').followedBy (run Char.isDigit)) rest = .ok ⟨[], (), rest⟩ by
        rw [optionally, hpoint])
    rw [oneOf_cons_ok hfirst, List.append_nil]
  | @decimal ds fs _ hne hds hfs hrest =>
    have hpoint : ((char '.').followedBy (run Char.isDigit)) ('.' :: (fs ++ rest)) =
        .ok ⟨'.' :: fs, (), rest⟩ := followedBy_ok (char_self '.') (run_append hfs hrest)
    have hdot : Stops Char.isDigit ('.' :: (fs ++ rest)) := Stops.cons.2 rfl
    have hfirst := followedBy_ok (runSome_append .digit hne hds hdot)
      (show optionally ((char '.').followedBy (run Char.isDigit)) ('.' :: (fs ++ rest)) =
        .ok ⟨'.' :: fs, (), rest⟩ by rw [optionally, hpoint])
    rw [List.append_assoc, List.cons_append, oneOf_cons_ok hfirst]
  | @fraction fs _ hne hfs hrest =>
    have hdot : Stops Char.isDigit ('.' :: (fs ++ rest)) := Stops.cons.2 rfl
    have hsecond := followedBy_ok (char_self '.') (runSome_append .digit hne hfs hrest)
    -- the first alternative fails at the point
    rw [List.cons_append, oneOf_cons_skip (followedBy_error_left (runSome_of_stops hdot))
      (oneOf_cons_ok hsecond)]
    rfl

/-- **What is said where no number begins**: the second shape failed, and
the first is not spoken of. -/
theorem numberRun_trail {input : List Char} (h : Numeral.Absent input) : numberRun input =
    .error [Numeral.missing input, ⟨input, .alternatives⟩, ⟨input, .label "number run"⟩] := by
  obtain ⟨hdigit, hpoint⟩ := h
  have hfirst : ∀ r ∈ [(runSome Char.isDigit .digit).followedBy
      (optionally ((char '.').followedBy (run Char.isDigit)))], ∃ t, r input = .error t := by
    intro r hr
    obtain rfl := List.mem_singleton.1 hr
    exact ⟨_, followedBy_error_left (runSome_of_stops hdigit)⟩
  have hsecond : ((char '.').followedBy (runSome Char.isDigit .digit)) input =
      .error [Numeral.missing input] := by
    -- a point in front has no digit behind it, and nothing else is a point
    unfold Numeral.missing
    split
    · next rest => exact followedBy_error_right (char_self '.') (runSome_of_stops (hpoint rest rfl))
    · next hno =>
      refine followedBy_error_left (char_of_head?_ne fun hhead => ?_)
      obtain ⟨rest, rfl⟩ := List.head?_eq_some_iff.1 hhead
      exact hno rest rfl
  have hnone := oneOf_error hfirst hsecond
  rw [List.singleton_append] at hnone
  rw [numberRun, labelled, hnone]
  rfl

/-- Where there is none, nothing is. -/
theorem numberRun_of_absent {input : List Char} (h : Numeral.Absent input) :
    ∃ t, numberRun input = .error t := ⟨_, numberRun_trail h⟩

/-- So a number is the numeral in front, and has its value. -/
theorem number_of_leads {text rest : List Char} (h : Numeral.Leads text rest) :
    number (text ++ rest) = .ok ⟨text, .number (Numeral.value text), rest⟩ := by
  simp [number, labelled, valued, numberRun_of_leads h]

/-- And where there is no numeral there is no number. -/
theorem number_of_absent {input : List Char} (h : Numeral.Absent input) :
    ∃ t, number input = .error t := by
  obtain ⟨t, ht⟩ := numberRun_of_absent h
  exact ⟨t ++ [⟨input, .label "number"⟩], by simp [number, labelled, valued, ht]⟩

/-- A number is found exactly where one begins. -/
theorem exists_number_iff {input : List Char} :
    (∃ m, number input = .ok m) ↔ ¬ Numeral.Absent input := by
  constructor
  · rintro ⟨m, hm⟩ habsent
    obtain ⟨t, ht⟩ := number_of_absent habsent
    rw [ht] at hm
    cases hm
  · intro h
    obtain ⟨text, rest, hleads, rfl⟩ := Numeral.exists_leads h
    exact ⟨_, number_of_leads hleads⟩

/-- Every operator is read from its glyph. -/
theorem operator_glyph (o : Operator) (rest : List Char) :
    operator (o.glyph :: rest) = .ok ⟨[o.glyph], .operator o, rest⟩ := by
  cases o <;> rfl

/-- Every parenthesis is read from its glyph. -/
theorem parenthesis_glyph (p : Parenthesis) (rest : List Char) :
    parenthesis (p.glyph :: rest) = .ok ⟨[p.glyph], .parenthesis p, rest⟩ := by
  cases p <;> rfl

/-- **A choice of glyphs where none of them stands** asks for the last
one. -/
theorem oneOf_glyphs_error {α : Type} (as : List α) (last : α) (glyph : α → Char)
    (token : α → Token) {input : List Char}
    (h : ∀ a ∈ as ++ [last], input.head? ≠ some (glyph a)) :
    oneOf ((as ++ [last]).map fun a => (char (glyph a)).valued fun _ => token a) input =
      .error [⟨input, .char (glyph last)⟩, ⟨input, .alternatives⟩] := by
  have hglyph : ∀ a ∈ as ++ [last], ((char (glyph a)).valued fun _ => token a) input =
      .error [⟨input, .char (glyph a)⟩] := fun a ha => by
    rw [valued, char_of_head?_ne (h a ha)]
  rw [List.map_append]
  refine oneOf_error (fun r hr => ?_) (hglyph last (by simp))
  obtain ⟨a, ha, rfl⟩ := List.mem_map.1 hr
  exact ⟨_, hglyph a (List.mem_append_left _ ha)⟩

/-- What is no operator fails at the last of the four glyphs, and the trail tells
of that one only. -/
theorem operator_trail {input : List Char} (h : ∀ o : Operator, input.head? ≠ some o.glyph) :
    operator input =
      .error [⟨input, .char '/'⟩, ⟨input, .alternatives⟩, ⟨input, .label "operator"⟩] := by
  have hnone := oneOf_glyphs_error [.add, .subtract, .multiply] .divide Operator.glyph .operator
    fun o _ => h o
  rw [operator, labelled]
  exact hnone ▸ rfl

theorem operator_error {input : List Char} (h : ∀ o : Operator, input.head? ≠ some o.glyph) :
    ∃ t, operator input = .error t := ⟨_, operator_trail h⟩

/-- The same with two glyphs. -/
theorem parenthesis_trail {input : List Char}
    (h : ∀ p : Parenthesis, input.head? ≠ some p.glyph) : parenthesis input =
      .error [⟨input, .char ')'⟩, ⟨input, .alternatives⟩, ⟨input, .label "parenthesis"⟩] := by
  have hnone := oneOf_glyphs_error [.opening] .closing Parenthesis.glyph .parenthesis
    fun p _ => h p
  rw [parenthesis, labelled]
  exact hnone ▸ rfl

theorem parenthesis_error {input : List Char}
    (h : ∀ p : Parenthesis, input.head? ≠ some p.glyph) : ∃ t, parenthesis input = .error t :=
  ⟨_, parenthesis_trail h⟩

/-! ## What a text begins with -/

/-- **A lexeme leads a text**: it ends before the text and takes as much as
belongs to it. A run of noise ends only before the alphabet. A point is
noise where no digit follows. -/
inductive Leads : Lexeme → List Char → Prop
  /-- A number. -/
  | number {text rest : List Char} : Numeral.Leads text rest → Leads (ofNumeral text) rest
  /-- One glyph. -/
  | symbol {c : Char} {t : Token} {rest : List Char} : Token.ofGlyph? c = some t →
      Leads ⟨[c], some t⟩ rest
  /-- Characters outside the alphabet, all there are. -/
  | noise {text rest : List Char} : text ≠ [] → (∀ c ∈ text, Glyph.isRecognized c = false) →
      Stops (fun c => !Glyph.isRecognized c) rest → Leads ⟨text, none⟩ rest
  /-- One point. -/
  | point {rest : List Char} : Stops Char.isDigit rest → Leads ⟨['.'], none⟩ rest

theorem Leads.ne_nil {l : Lexeme} {rest : List Char} (h : l.Leads rest) : l.text ≠ [] := by
  cases h with
  | number h => exact h.ne_nil
  | symbol _ => simp
  | noise h _ _ => exact h
  | point _ => simp

/-- No number begins a text that begins with anything but a digit or a
point. -/
theorem absent_of_not_isNumeric {c : Char} (rest : List Char) (h : Glyph.isNumeric c = false) :
    Numeral.Absent (c :: rest) := by
  simp only [Glyph.isNumeric, Bool.or_eq_false_iff, beq_eq_false_iff_ne] at h
  refine ⟨Stops.cons.2 h.1, fun r hr => ?_⟩
  exact absurd (List.cons.inj hr).1 h.2

/-- A point that no digit follows is no numeral. -/
theorem absent_of_stops {rest : List Char} (h : Stops Char.isDigit rest) :
    Numeral.Absent ('.' :: rest) := by
  refine ⟨Stops.cons.2 rfl, fun r hr => ?_⟩
  rwa [← (List.cons.inj hr).2]

/-- Neither symbol recognizer takes what is no symbol. -/
theorem symbols_error {c : Char} (rest : List Char) (h : Token.ofGlyph? c = none) :
    (∃ t, operator (c :: rest) = .error t) ∧ ∃ t, parenthesis (c :: rest) = .error t := by
  constructor
  · refine operator_error fun o ho => ?_
    obtain rfl : c = o.glyph := by simpa using ho
    rw [Token.ofGlyph?_eq_some_iff.2 (.inl ⟨o, rfl, rfl⟩)] at h
    cases h
  · refine parenthesis_error fun p hp => ?_
    obtain rfl : c = p.glyph := by simpa using hp
    rw [Token.ofGlyph?_eq_some_iff.2 (.inr ⟨p, rfl, rfl⟩)] at h
    cases h

/-- **Noise is taken as far as it goes.** -/
theorem noise_run {text rest : List Char} (hne : text ≠ [])
    (htext : ∀ c ∈ text, Glyph.isRecognized c = false)
    (hrest : Stops (fun c => !Glyph.isRecognized c) rest) :
    noise (text ++ rest) = .ok ⟨text, (), rest⟩ := by
  have := runSome_append .run hne (fun c hc => by simp [htext c hc]) hrest
  rw [noise, labelled, oneOf_cons_ok this]

/-- **Noise outside the alphabet** is the longest run of it. -/
theorem noise_not_recognized {c : Char} (h : Glyph.isRecognized c = false) (cs : List Char) :
    noise (c :: cs) = .ok ⟨(c :: cs).takeWhile (fun d => !Glyph.isRecognized d), (),
      (c :: cs).dropWhile (fun d => !Glyph.isRecognized d)⟩ := by
  have hne : (c :: cs).takeWhile (fun d => !Glyph.isRecognized d) ≠ [] :=
    Stops.takeWhile_ne_nil (by simp [h])
  have hrun := noise_run hne (fun d hd => by simpa using List.mem_takeWhile_imp hd)
    (Stops.dropWhile (fun d => !Glyph.isRecognized d) (c :: cs))
  rwa [List.takeWhile_append_dropWhile] at hrun

/-- Where a character is recognized, noise is that one character. -/
theorem noise_recognized {c : Char} {rest : List Char} (h : Glyph.isRecognized c) :
    noise (c :: rest) = .ok ⟨[c], (), rest⟩ := by
  have hstop : Stops (fun c => !Glyph.isRecognized c) (c :: rest) := Stops.cons.2 (by simp [h])
  have hany : oneOf [anyChar] (c :: rest) = .ok ⟨[c], (), rest⟩ := rfl
  rw [noise, labelled, oneOf_cons_skip (runSome_of_stops hstop) hany]

theorem ofToken_ok {r : Recognizer Token} {input : List Char} {m : Match Token}
    (h : r input = .ok m) : ofToken r input = .ok ⟨m.text, ⟨m.text, some m.value⟩, m.rest⟩ := by
  rw [ofToken, h]

theorem ofToken_error {r : Recognizer Token} {input : List Char} {t : Trail}
    (h : r input = .error t) : ofToken r input = .error t := by
  rw [ofToken, h]

theorem ofNoise_ok {r : Recognizer Unit} {input : List Char} {m : Match Unit}
    (h : r input = .ok m) : ofNoise r input = .ok ⟨m.text, ⟨m.text, none⟩, m.rest⟩ := by
  rw [ofNoise, valued, h]

/-- A choice that succeeds is the next lexeme. -/
theorem next_of_oneOf {input : List Char} {m : Match Lexeme}
    (h : oneOf [ofToken number, ofToken operator, ofToken parenthesis, ofNoise noise] input =
      .ok m) : next Alternative.inOrder input = .ok m := by
  have hmap : Alternative.inOrder.map Alternative.recognize =
      [ofToken number, ofToken operator, ofToken parenthesis, ofNoise noise] := rfl
  rw [next, labelled, hmap, h]

/-- What is neither a number nor a symbol is left to the noise. -/
theorem next_of_noise {c : Char} {rest : List Char} {m : Match Unit}
    (hnumber : Numeral.Absent (c :: rest)) (hsymbol : Token.ofGlyph? c = none)
    (h : noise (c :: rest) = .ok m) :
    next Alternative.inOrder (c :: rest) = .ok ⟨m.text, ⟨m.text, none⟩, m.rest⟩ := by
  obtain ⟨t₁, h₁⟩ := number_of_absent hnumber
  obtain ⟨⟨t₂, h₂⟩, t₃, h₃⟩ := symbols_error rest hsymbol
  refine next_of_oneOf ?_
  rw [oneOf_cons_skip (ofToken_error h₁)
    (oneOf_cons_skip (ofToken_error h₂)
      (oneOf_cons_skip (ofToken_error h₃) (oneOf_cons_ok (ofNoise_ok h))))]

/-- **The recognizers find the lexeme that leads the rest.** -/
theorem next_of_leads {l : Lexeme} {rest : List Char} (h : l.Leads rest) :
    next Alternative.inOrder (l.text ++ rest) = .ok ⟨l.text, l, rest⟩ := by
  cases h with
  | number h => exact next_of_oneOf (oneOf_cons_ok (ofToken_ok (number_of_leads h)))
  | @symbol c t _ ht =>
    have hsymbol : Glyph.isSymbol c := Glyph.isSymbol_iff.2 ⟨t, ht⟩
    obtain ⟨t₁, h₁⟩ :=
      number_of_absent (absent_of_not_isNumeric rest (Glyph.isNumeric_of_isSymbol hsymbol))
    refine next_of_oneOf (oneOf_cons_skip (ofToken_error h₁) ?_)
    rcases Token.ofGlyph?_eq_some_iff.1 ht with ⟨o, rfl, rfl⟩ | ⟨p, rfl, rfl⟩
    · exact oneOf_cons_ok (ofToken_ok (operator_glyph o rest))
    · have hne : ∀ o : Operator, (p.glyph :: rest).head? ≠ some o.glyph := by
        intro o
        cases o <;> cases p <;> simp [Operator.glyph, Parenthesis.glyph]
      obtain ⟨t₂, h₂⟩ := operator_error hne
      exact oneOf_cons_skip (ofToken_error h₂)
        (oneOf_cons_ok (ofToken_ok (parenthesis_glyph p rest)))
  | @noise text _ hne htext hrest =>
    -- its first character keeps the other recognizers off
    obtain ⟨c, cs, rfl⟩ := List.exists_cons_of_ne_nil hne
    have hc : Glyph.isRecognized c = false := htext c List.mem_cons_self
    simp only [Glyph.isRecognized, Bool.or_eq_false_iff] at hc
    exact next_of_noise (absent_of_not_isNumeric _ hc.1) (Glyph.isSymbol_eq_false_iff.1 hc.2)
      (noise_run hne htext hrest)
  | point hrest => exact next_of_noise (absent_of_stops hrest) rfl (noise_recognized rfl)

/-- **Every text that is not empty begins with a lexeme.** -/
theorem exists_leads (c : Char) (cs : List Char) :
    ∃ l rest, Leads l rest ∧ l.text ++ rest = c :: cs := by
  by_cases hnumber : Numeral.Absent (c :: cs)
  · rcases ht : Token.ofGlyph? c with - | t
    · by_cases hc : Glyph.isRecognized c
      · -- no number, no symbol, and yet of the alphabet
        have hnumeric : Glyph.isNumeric c := by
          rcases Glyph.isRecognized_iff.1 hc with hc | hc
          · exact hc
          · rw [Glyph.isSymbol_eq_false_iff.2 ht] at hc
            cases hc
        rcases Glyph.isNumeric_iff.1 hnumeric with hc | rfl
        · rw [Stops.cons.1 hnumber.1] at hc
          cases hc
        · exact ⟨⟨['.'], none⟩, cs, .point (hnumber.2 cs rfl), rfl⟩
      · let p : Char → Bool := fun c => !Glyph.isRecognized c
        have hne : (c :: cs).takeWhile p ≠ [] := Stops.takeWhile_ne_nil (by simp [p, hc])
        refine ⟨⟨(c :: cs).takeWhile p, none⟩, (c :: cs).dropWhile p,
          .noise hne (fun d hd => ?_) (Stops.dropWhile p _), List.takeWhile_append_dropWhile⟩
        simpa [p] using List.mem_takeWhile_imp hd
    · exact ⟨⟨[c], some t⟩, cs, .symbol ht, rfl⟩
  · obtain ⟨text, rest, h, happ⟩ := Numeral.exists_leads hnumber
    exact ⟨ofNumeral text, rest, .number h, happ⟩

/-! ## Cutting goes on behind a lexeme -/

@[simp] theorem cut_nil (alternatives : List Alternative) : cut alternatives [] = [] := by
  simp [cut, repeated]

/-- **A cut goes on behind its first lexeme as a cut of the rest**, under any
alternatives that find it. -/
theorem cut_of_next {alternatives : List Alternative} {l : Lexeme} {rest : List Char}
    (hne : l.text ≠ []) (hnext : next alternatives (l.text ++ rest) = .ok ⟨l.text, l, rest⟩) :
    cut alternatives (l.text ++ rest) = (l.text ++ rest, l) :: cut alternatives rest := by
  obtain ⟨c, cs, htext⟩ := List.exists_cons_of_ne_nil hne
  rw [htext, List.cons_append] at hnext ⊢
  rw [cut, repeated, hnext]
  simp [cut]

/-- **A lexeme in front of a text is cut off it**, and the rest is cut then. -/
theorem cut_of_leads {l : Lexeme} {rest : List Char} (h : l.Leads rest) :
    cut Alternative.inOrder (l.text ++ rest) =
      (l.text ++ rest, l) :: cut Alternative.inOrder rest :=
  cut_of_next h.ne_nil (next_of_leads h)

end Lexeme

end Abacus
