import Abacus.Log.Directive
import Abacus.Proofs.Nearest
import Abacus.Proofs.Rereading
import Mathlib.Tactic.FieldSimp
import Mathlib.Tactic.Ring

/-!
# Numerals — the values of numbers are correctly rounded

A numeral is digits with at most one point among them (`Numeral.Spelled`)
and denotes a rational number (`Numeral.rational`), whatever its length.
The double that a text writes, by the grammar of doubles, is
`Binary64.ofText?`: many texts write none, but every run that the
recognizer of numbers finds writes one, and the same one that is computed
from its digits (`ofText?_of_spelled`). So converting never fails
(`number_eq_converted`), and what comes out is the double nearest to the
rational (`rounded_of_spelled`). The rest is read off that: what denotes
the same is the same double, and the two equalities of tokens are one.
-/

namespace Abacus

/-! ## Numerals and what they denote -/

namespace Numeral

/-- **The grammar of numbers.** -/
inductive Spelled : List Char → Prop
  /-- Digits. -/
  | whole {ds : List Char} : ds ≠ [] → (∀ c ∈ ds, c.isDigit) → Spelled ds
  /-- Digits, a point and further digits, if any. -/
  | decimal {ds fs : List Char} : ds ≠ [] → (∀ c ∈ ds, c.isDigit) → (∀ c ∈ fs, c.isDigit) →
      Spelled (ds ++ '.' :: fs)
  /-- A point and digits. -/
  | fraction {fs : List Char} : fs ≠ [] → (∀ c ∈ fs, c.isDigit) → Spelled ('.' :: fs)

/-- The runs that are found are those of the grammar. -/
theorem Leads.spelled {text rest : List Char} (h : Leads text rest) : Spelled text := by
  cases h with
  | whole hne hds _ => exact .whole hne hds
  | decimal hne hds hfs _ => exact .decimal hne hds hfs
  | fraction hne hfs _ => exact .fraction hne hfs

/-- And each of them is found at the end of a text. -/
theorem Spelled.leads {text : List Char} (h : Spelled text) : Leads text [] := by
  cases h with
  | whole hne hds => exact .whole hne hds .nil
  | decimal hne hds hfs => exact .decimal hne hds hfs .nil
  | fraction hne hfs => exact .fraction hne hfs .nil

/-- The digits before the point. -/
def wholePart (text : List Char) : List Char := text.takeWhile Char.isDigit

/-- The digits behind the point. -/
def fractionPart (text : List Char) : List Char := (text.dropWhile Char.isDigit).drop 1

/-- The number that digits behind a point add: each counts for a tenth of
what it would count for one place before. -/
def fractionValue : List Char → ℚ
  | [] => 0
  | c :: cs => ((c.toNat - '0'.toNat : Nat) + fractionValue cs) / 10

/-- **What a numeral denotes**: the number before the point, and the
fraction behind it. -/
def rational (text : List Char) : ℚ :=
  Nat.ofDigitChars 10 (wholePart text) 0 + fractionValue (fractionPart text)

section

variable {text ds fs : List Char}

theorem wholePart_whole (h : ∀ c ∈ ds, c.isDigit) : wholePart ds = ds :=
  List.takeWhile_eq_self_iff.2 h

theorem fractionPart_whole (h : ∀ c ∈ ds, c.isDigit) : fractionPart ds = [] := by
  rw [fractionPart, List.dropWhile_eq_nil_iff.2 h, List.drop_nil]

theorem wholePart_point (h : ∀ c ∈ ds, c.isDigit) (fs : List Char) :
    wholePart (ds ++ '.' :: fs) = ds :=
  Stops.takeWhile_append h (Stops.cons.2 rfl)

theorem fractionPart_point (h : ∀ c ∈ ds, c.isDigit) (fs : List Char) :
    fractionPart (ds ++ '.' :: fs) = fs := by
  rw [fractionPart, Stops.dropWhile_append h (Stops.cons.2 rfl)]
  rfl

/-- A numeral is digits, with no point, or with a point before the others. -/
theorem Spelled.parts (h : Spelled text) :
    (∀ c ∈ wholePart text, c.isDigit) ∧ (∀ c ∈ fractionPart text, c.isDigit) ∧
      wholePart text ++ fractionPart text ≠ [] ∧
      ((text = wholePart text ∧ fractionPart text = []) ∨
        text = wholePart text ++ '.' :: fractionPart text) := by
  cases h with
  | whole hne hds =>
    rw [wholePart_whole hds, fractionPart_whole hds]
    exact ⟨hds, by simp, by simpa using hne, .inl ⟨rfl, rfl⟩⟩
  | decimal hne hds hfs =>
    rw [wholePart_point hds, fractionPart_point hds]
    exact ⟨hds, hfs, by simp [hne], .inr rfl⟩
  | @fraction fs hne hfs =>
    have hnil : ∀ c ∈ ([] : List Char), c.isDigit := by simp
    have hwhole := wholePart_point hnil fs
    have hfraction := fractionPart_point hnil fs
    rw [List.nil_append] at hwhole hfraction
    rw [hwhole, hfraction]
    exact ⟨hnil, hfs, by simpa using hne, .inr rfl⟩

theorem places_eq_length (text : List Char) : places text = (fractionPart text).length := by
  rw [places, fractionPart, List.length_drop]

theorem Spelled.digits_eq (h : Spelled text) :
    digits text = wholePart text ++ fractionPart text := by
  obtain ⟨hwhole, hfraction, -, ⟨htext, hnil⟩ | htext⟩ := h.parts
  · rw [hnil, List.append_nil]
    exact (congrArg digits htext).trans (Written.filter_isDigit hwhole)
  · have hpoint : digits ('.' :: fractionPart text) = fractionPart text := by
      rw [digits, List.filter_cons_of_neg (by decide), Written.filter_isDigit hfraction]
    calc digits text = digits (wholePart text ++ '.' :: fractionPart text) := congrArg digits htext
      _ = digits (wholePart text) ++ digits ('.' :: fractionPart text) := List.filter_append ..
      _ = wholePart text ++ fractionPart text := by
        rw [hpoint, digits, Written.filter_isDigit hwhole]

/-- Digits behind a point are their number over a power of ten. -/
theorem fractionValue_eq_div (fs : List Char) :
    fractionValue fs = Nat.ofDigitChars 10 fs 0 / 10 ^ fs.length := by
  induction fs with
  | nil => simp [fractionValue]
  | cons c cs ih =>
    have hpos : (0 : ℚ) < 10 ^ cs.length := by positivity
    have hfirst : Nat.ofDigitChars 10 cs (c.toNat - '0'.toNat) =
        10 ^ cs.length * (c.toNat - '0'.toNat) + Nat.ofDigitChars 10 cs 0 :=
      Nat.ofDigitChars_eq_ofDigitChars_zero
    rw [fractionValue, ih, Nat.ofDigitChars_cons, Nat.mul_zero, Nat.zero_add, hfirst,
      List.length_cons, pow_succ]
    push_cast
    field_simp

/-- **A numeral denotes all its digits over a power of ten.** -/
theorem Spelled.rational_eq_div (h : Spelled text) :
    rational text = (Nat.ofDigitChars 10 (digits text) 0 : ℚ) / (Nat.pow 10 (places text) : Nat) := by
  have hpos : (0 : ℚ) < 10 ^ (fractionPart text).length := by positivity
  have hwhole : Nat.ofDigitChars 10 (fractionPart text) (Nat.ofDigitChars 10 (wholePart text) 0) =
      10 ^ (fractionPart text).length * Nat.ofDigitChars 10 (wholePart text) 0 +
        Nat.ofDigitChars 10 (fractionPart text) 0 :=
    Nat.ofDigitChars_eq_ofDigitChars_zero
  rw [rational, fractionValue_eq_div, h.digits_eq, places_eq_length, Nat.ofDigitChars_append,
    hwhole, Nat.pow_eq]
  push_cast
  field_simp

/-! ## Spellings of one number -/

/-- Zeros in front are nothing. -/
theorem rational_zero_cons (text : List Char) : rational ('0' :: text) = rational text := rfl

theorem fractionValue_append_zero (fs : List Char) :
    fractionValue (fs ++ ['0']) = fractionValue fs := by
  induction fs with
  | nil => simp [fractionValue]
  | cons c cs ih => rw [List.cons_append, fractionValue, ih, fractionValue]

/-- Zeros at the end of a fraction are nothing. -/
theorem rational_append_zero (h : ∀ c ∈ ds, c.isDigit) (fs : List Char) :
    rational (ds ++ '.' :: (fs ++ ['0'])) = rational (ds ++ '.' :: fs) := by
  rw [rational, rational, wholePart_point h, wholePart_point h, fractionPart_point h,
    fractionPart_point h, fractionValue_append_zero]

/-- A point with nothing behind it is nothing. -/
theorem rational_append_point (h : ∀ c ∈ ds, c.isDigit) :
    rational (ds ++ ['.']) = rational ds := by
  rw [rational, rational, wholePart_point h, fractionPart_point h, wholePart_whole h,
    fractionPart_whole h]

end

end Numeral

/-! ## The double that a text writes -/

namespace Binary64

/-- A pattern that is no number. -/
def notNumber (negative : Bool) : Binary64 where
  negative
  magnitude := infiniteMagnitude + Nat.pow 2 51
  bound := by decide

/-- **The double that a text writes**, if it writes one: after a sign, a word
for what is not finite, or a decimal, which is rounded once. -/
def ofText? (s : List Char) : Option Binary64 :=
  if ValuePattern.isNumber s then
    let negative := s.head? = some '-'
    let body := (ValuePattern.isNumber.unsigned s).map Char.toLower
    some <|
      if body = "inf".toList ∨ body = "infinity".toList then ofMagnitude negative infiniteMagnitude
      else if body = "nan".toList then notNumber negative
      else ofMagnitude negative (Decimal.ofText body).magnitude
  else none

end Binary64

namespace Numeral

section

variable {text : List Char}

/-- A numeral is digits and points. -/
theorem Spelled.isNumeric (h : Spelled text) : ∀ c ∈ text, Glyph.isNumeric c := h.leads.isNumeric

theorem toLower_of_isNumeric {c : Char} (h : Glyph.isNumeric c) : c.toLower = c := by
  rcases Glyph.isNumeric_iff.1 h with h | rfl
  · have hle : c.toNat ≤ 57 := by
      simp only [Char.isDigit, Bool.and_eq_true, decide_eq_true_eq] at h
      exact h.2
    exact dif_neg fun hupper => absurd (show 65 ≤ c.toNat from hupper.1) (by omega)
  · rfl

theorem Spelled.map_toLower (h : Spelled text) : text.map Char.toLower = text := by
  rw [List.map_congr_left fun c hc => toLower_of_isNumeric (h.isNumeric c hc), List.map_id']

/-- There is no sign to take off, and no word. -/
theorem Spelled.head?_ne (h : Spelled text) {c : Char} (hc : Glyph.isNumeric c = false) :
    text.head? ≠ some c := fun hhead => by
  simpa [hc] using h.isNumeric c (List.mem_of_head? hhead)

theorem Spelled.unsigned_eq (h : Spelled text) : ValuePattern.isNumber.unsigned text = text := by
  have hplus : text.head? ≠ some '+' := h.head?_ne rfl
  have hminus : text.head? ≠ some '-' := h.head?_ne rfl
  simp [ValuePattern.isNumber.unsigned, hplus, hminus]

/-- **Numerals are texts of numbers.** -/
theorem Spelled.isNumber (h : Spelled text) : ValuePattern.isNumber text := by
  obtain ⟨hwhole, hfraction, hne, hparts⟩ := h.parts
  rw [wholePart] at hne
  unfold ValuePattern.isNumber
  dsimp only
  rw [h.unsigned_eq]
  split
  · rfl
  · rcases hparts with ⟨htext, hnil⟩ | htext
    · have hrest : text.dropWhile Char.isDigit = [] :=
        List.dropWhile_eq_nil_iff.2 fun c hc => hwhole c (htext ▸ hc)
      rw [hnil, List.append_nil] at hne
      simp [hrest, List.isEmpty_eq_false_iff.2 hne, ValuePattern.isNumber.isExponent]
    · have hrest : text.dropWhile Char.isDigit = '.' :: fractionPart text := by
        conv_lhs => rw [htext]
        exact Stops.dropWhile_append hwhole (Stops.cons.2 rfl)
      rw [hrest, if_pos List.head?_cons, List.drop_one, List.tail_cons,
        List.takeWhile_eq_self_iff.2 hfraction, List.dropWhile_eq_nil_iff.2 hfraction]
      simpa [ValuePattern.isNumber.isExponent, imp_iff_not_or] using hne

/-- The decimal of a numeral's text. -/
theorem Spelled.ofText_eq (h : Spelled text) :
    Decimal.ofText text = ⟨Nat.ofDigitChars 10 (digits text) 0, -(places text)⟩ := by
  have hmark : ∀ c ∈ text, (c != 'e') = true := fun c hc => by
    rw [bne_iff_ne]
    rintro rfl
    exact absurd (h.isNumeric _ hc) (by decide)
  have hmantissa : text.takeWhile (· != 'e') = text := List.takeWhile_eq_self_iff.2 hmark
  have hrest : text.dropWhile (· != 'e') = [] := List.dropWhile_eq_nil_iff.2 hmark
  have hplaces : ((text.dropWhile (· != '.')).filter Char.isDigit).length = places text := by
    rw [places_eq_length]
    obtain ⟨hwhole, hfraction, -, ⟨htext, hnil⟩ | htext⟩ := h.parts
    · have hpoint : ∀ c ∈ text, (c != '.') = true := fun c hc => by
        simpa using ne_of_isDigit (hwhole c (htext ▸ hc)) rfl
      rw [List.dropWhile_eq_nil_iff.2 hpoint, hnil]
      rfl
    · have hpoint : ∀ c ∈ wholePart text, (c != '.') = true := fun c hc => by
        simpa using ne_of_isDigit (hwhole c hc) rfl
      have hdrop : text.dropWhile (· != '.') = '.' :: fractionPart text := by
        conv_lhs => rw [htext]
        exact Stops.dropWhile_append hpoint (Stops.cons.2 rfl)
      rw [hdrop, List.filter_cons_of_neg (by decide), Written.filter_isDigit hfraction]
  unfold Decimal.ofText
  dsimp only
  rw [hmantissa, hrest, hplaces]
  simp [digits]

/-- **A numeral writes the double that is computed from its digits.** -/
theorem ofText?_of_spelled (h : Spelled text) : Binary64.ofText? text = some (value text) := by
  have hminus : text.head? ≠ some '-' := h.head?_ne rfl
  have hword : ∀ word : List Char, (∃ c ∈ word.head?, Glyph.isNumeric c = false) → text ≠ word := by
    rintro word ⟨c, hc, hnumeric⟩ rfl
    exact h.head?_ne hnumeric hc
  have hvalue : (Nat.ofDigitChars 10 (digits text) 0 : ℚ) / (Nat.pow 10 (places text) : Nat) =
      (Decimal.ofText text).value := by
    rw [h.ofText_eq, Decimal.value, zpow_neg, zpow_natCast, Nat.pow_eq, Nat.cast_pow,
      div_eq_mul_inv]
    rfl
  rw [Binary64.ofText?, if_pos h.isNumber]
  dsimp only
  rw [h.unsigned_eq, h.map_toLower,
    if_neg (not_or.2 ⟨hword _ ⟨'i', rfl, rfl⟩, hword _ ⟨'i', rfl, rfl⟩⟩),
    if_neg (hword _ ⟨'n', rfl, rfl⟩), decide_eq_false hminus, value, Binary64.ofRatio,
    Decimal.roundRatio_eq_magnitude (Decimal.ten_pow_pos _) hvalue]

/-- A point alone is no numeral, and writes no double. -/
example : Binary64.ofText? ['.'] = none := by decide +kernel

end

end Numeral

/-! ## Converting never fails -/

namespace Recognizer

variable {α β : Type}

/-- A recognizer whose text is converted, which may be refused. -/
def converted (convert : List Char → Option β) (refused : List Char → Trail)
    (r : Recognizer α) : Recognizer β := fun input =>
  match r input with
  | .error t => .error t
  | .ok m =>
    match convert m.text with
    | none => .error (refused input)
    | some v => .ok ⟨m.text, v, m.rest⟩

end Recognizer

namespace Lexeme

open Recognizer

/-- **What is found is a number that ends there.** -/
theorem leads_of_numberRun {input : List Char} {m : Match Unit} (h : numberRun input = .ok m) :
    Numeral.Leads m.text m.rest ∧ m.text ++ m.rest = input := by
  by_cases habsent : Numeral.Absent input
  · obtain ⟨t, ht⟩ := numberRun_of_absent habsent
    rw [ht] at h
    cases h
  · obtain ⟨text, rest, hleads, rfl⟩ := Numeral.exists_leads habsent
    rw [numberRun_of_leads hleads] at h
    cases h
    exact ⟨hleads, rfl⟩

/-- **No run is refused**, so what a refusal would say does not matter. -/
theorem number_eq_converted (refused : List Char → Trail) :
    number = labelled "number" (numberRun.converted
      (fun text => (Binary64.ofText? text).map Token.number) refused) := by
  unfold number
  congr 1
  funext input
  rcases hrun : numberRun input with t | m
  · rw [valued, converted, hrun]
  · rw [valued, converted, hrun]
    dsimp only
    rw [Numeral.ofText?_of_spelled (leads_of_numberRun hrun).1.spelled]
    rfl

end Lexeme

/-! ## Rounded values -/

namespace Numeral

/-- **The value of a numeral, correctly rounded.** -/
structure Rounded (text : List Char) (v : Binary64) : Prop where
  /-- The text writes it. -/
  converted : Binary64.ofText? text = some v
  /-- It is read off wherever the text is a whole number. -/
  read : ∀ rest, Leads text rest → Lexeme.number (text ++ rest) = .ok ⟨text, .number v, rest⟩
  /-- It is the double nearest to what is denoted. -/
  nearest : Binary64.Nearest (rational text) v
  /-- It has no sign, so an infinity is the positive one. -/
  positive : v.negative = false
  /-- It is zero up to half of the smallest double. -/
  zero : v = .zero ↔ rational text ≤ 1 / 2 ^ 1075

/-- One way to spell a number anew: a zero in front, a point behind digits,
or a zero behind a point and digits. -/
inductive Respelled : List Char → List Char → Prop
  | front (text : List Char) : Respelled text ('0' :: text)
  | point {ds : List Char} : (∀ c ∈ ds, c.isDigit) → Respelled ds (ds ++ ['.'])
  | back {ds : List Char} (fs : List Char) : (∀ c ∈ ds, c.isDigit) →
      Respelled (ds ++ '.' :: fs) (ds ++ '.' :: (fs ++ ['0']))

section

variable {text other : List Char}

/-- **Every numeral is rounded correctly.** -/
theorem rounded_of_spelled (h : Spelled text) : Rounded text (value text) where
  converted := ofText?_of_spelled h
  read _ hleads := Lexeme.number_of_leads hleads
  nearest := by
    rw [h.rational_eq_div]
    exact Binary64.nearest_ofRatio (Decimal.ten_pow_pos _)
  positive := rfl
  zero := by
    rw [h.rational_eq_div]
    exact Binary64.ofRatio_eq_zero_iff (Decimal.ten_pow_pos _)

/-- Numerals that denote the same have one value. -/
theorem value_congr (h : Spelled text) (hother : Spelled other)
    (heq : rational text = rational other) : value text = value other :=
  (rounded_of_spelled h).nearest.unique (heq ▸ (rounded_of_spelled hother).nearest)
    ((rounded_of_spelled h).positive.trans (rounded_of_spelled hother).positive.symm)

/-- **Larger numerals have no smaller value.** -/
theorem atMost_value (h : Spelled text) (hother : Spelled other)
    (hle : rational text ≤ rational other) : (value text).AtMost (value other) := by
  rw [h.rational_eq_div, hother.rational_eq_div] at hle
  exact Binary64.atMost_ofRatio (Decimal.ten_pow_pos _) (Decimal.ten_pow_pos _) hle

theorem Respelled.rational_eq (h : Respelled text other) : rational other = rational text := by
  cases h with
  | front => exact rational_zero_cons _
  | point hds => exact rational_append_point hds
  | back fs hds => exact rational_append_zero hds fs

/-- Spelled anew, a numeral stays one. -/
theorem Respelled.spelled (hrespelled : Respelled text other) (h : Spelled text) :
    Spelled other := by
  cases hrespelled with
  | front =>
    cases h with
    | whole _ hds => exact .whole (by simp) (List.forall_mem_cons.2 ⟨rfl, hds⟩)
    | @decimal ds fs _ hds hfs =>
      show Spelled (('0' :: ds) ++ '.' :: fs)
      exact .decimal (by simp) (List.forall_mem_cons.2 ⟨rfl, hds⟩) hfs
    | @fraction fs _ hfs =>
      show Spelled (['0'] ++ '.' :: fs)
      exact .decimal (by simp) (by simp) hfs
  | point hds => exact .decimal h.leads.ne_nil hds (by simp)
  | @back ds fs hds =>
    obtain ⟨-, hfs, hne, -⟩ := h.parts
    rw [fractionPart_point hds] at hfs
    have hfs' : ∀ c ∈ fs ++ ['0'], c.isDigit := by
      simpa [or_imp, forall_and] using hfs
    by_cases hnil : ds = []
    · subst hnil
      exact .fraction (by simp) hfs'
    · exact .decimal hnil hds hfs'

end

end Numeral

/-! ## Equal tokens -/

/-- Equal tokens, numbers by their bits. -/
def Token.sameBits : Token → Token → Bool
  | .number v, .number w => v.bits == w.bits
  | t, u => t == u

theorem Token.sameBits_iff {t u : Token} : t.sameBits u ↔ t = u := by
  cases t <;> cases u <;> simp [Token.sameBits, Binary64.bits_injective.eq_iff]

/-- Values without a sign that are numbers are equal as they are. -/
theorem Binary64.sameValue_iff {x y : Binary64} (hx : x.isNaN = false) (hy : y.isNaN = false)
    (hsign : x.negative = y.negative) : x.sameValue y ↔ x = y := by
  constructor
  · intro h
    refine eq_of_magnitude hsign ?_
    simp only [sameValue, isZero, hx, hy, Bool.not_false, Bool.true_and, Bool.or_eq_true,
      Bool.and_eq_true, beq_iff_eq] at h
    omega
  · rintro rfl
    simp [sameValue, hx]

/-- Lists agree place by place when they are equal, if their entries do. -/
theorem sameBy_iff {α : Type} {same : α → α → Bool} {as bs : List α}
    (h : ∀ a ∈ as, ∀ b ∈ bs, (same a b ↔ a = b)) : sameBy same as bs ↔ as = bs := by
  induction as generalizing bs with
  | nil => cases bs <;> simp [sameBy]
  | cons a as ih =>
    cases bs with
    | nil => simp [sameBy]
    | cons b bs =>
      rw [sameBy, Bool.and_eq_true, h a List.mem_cons_self b List.mem_cons_self,
        ih fun a ha b hb => h a (List.mem_cons_of_mem _ ha) b (List.mem_cons_of_mem _ hb),
        List.cons.injEq]

theorem sameBits_parse_iff (a b : List Char) :
    sameBy Token.sameBits (parse a) (parse b) ↔ parse a = parse b :=
  sameBy_iff fun _ _ _ _ => Token.sameBits_iff

/-- **Parsed tokens are equal when they are the same.** -/
theorem sameValue_parse_iff (a b : List Char) :
    sameBy Token.sameValue (parse a) (parse b) ↔ parse a = parse b := by
  refine sameBy_iff fun t ht u hu => ?_
  cases t <;> cases u <;> simp only [Token.sameValue, reduceCtorEq, Bool.false_eq_true, beq_iff_eq,
    Token.operator.injEq, Token.parenthesis.injEq, Token.number.injEq]
  obtain ⟨hnegative, hnan⟩ := number_of_mem_parse ht
  obtain ⟨hnegative', hnan'⟩ := number_of_mem_parse hu
  exact Binary64.sameValue_iff hnan hnan' (hnegative.trans hnegative'.symm)

/-- **Numbers are correctly rounded.** No run is refused, and its value is
the double nearest to what it denotes. So spellings of one number have one
value, larger numbers have no smaller one, no number that is parsed has a
sign or is none, and parsed tokens are equal when their bits are. -/
theorem number_rounded :
    (∀ refused : List Char → Trail, Lexeme.number =
      Recognizer.labelled "number" (Lexeme.numberRun.converted
        (fun text => (Binary64.ofText? text).map Token.number) refused)) ∧
    (∀ text, Numeral.Spelled text → Numeral.Rounded text (Numeral.value text)) ∧
    (∀ a b, Numeral.Spelled a → Numeral.Spelled b → Numeral.rational a = Numeral.rational b →
      (Numeral.value a).bits = (Numeral.value b).bits) ∧
    (∀ a b, Numeral.Spelled a → Numeral.Respelled a b →
      Numeral.Spelled b ∧ (Numeral.value b).bits = (Numeral.value a).bits) ∧
    (∀ a b, Numeral.Spelled a → Numeral.Spelled b → Numeral.rational a ≤ Numeral.rational b →
      (Numeral.value a).AtMost (Numeral.value b)) ∧
    (∀ s v, .number v ∈ parse s → v.isNaN = false ∧ v.negative = false ∧
      ∃ text, text <:+: s ∧ Numeral.Rounded text v) ∧
    ∀ a b, sameBy Token.sameValue (parse a) (parse b) =
      sameBy Token.sameBits (parse a) (parse b) := by
  refine ⟨Lexeme.number_eq_converted, fun text => Numeral.rounded_of_spelled,
    fun a b ha hb h => congrArg _ (Numeral.value_congr ha hb h), fun a b ha h => ?_,
    fun a b => Numeral.atMost_value, fun s v hv => ?_, fun a b => ?_⟩
  · have hb := h.spelled ha
    exact ⟨hb, congrArg _ (Numeral.value_congr hb ha h.rational_eq)⟩
  · obtain ⟨hnegative, hnan⟩ := number_of_mem_parse hv
    obtain ⟨before, text, after, rfl, hleads, rfl⟩ := exists_run_of_mem_parse hv
    exact ⟨hnan, hnegative, text, ⟨before, after, rfl⟩, Numeral.rounded_of_spelled hleads.spelled⟩
  · rw [Bool.eq_iff_iff, sameValue_parse_iff, sameBits_parse_iff]

/-- The first whole number that is no double lies halfway between two, and
goes to the even one, with a zero in front as well. -/
theorem number_rounded_halfway :
    Numeral.Spelled "9007199254740993".toList ∧
      Numeral.Rounded "9007199254740993".toList (.ofNat 9007199254740992) ∧
      (Numeral.value "09007199254740993".toList).bits =
        (Binary64.ofNat 9007199254740992).bits := by
  have hspelled : Numeral.Spelled "9007199254740993".toList :=
    .whole (by decide +kernel) (List.all_eq_true.1 (by decide +kernel))
  have hvalue : Numeral.value "9007199254740993".toList = .ofNat 9007199254740992 := by
    decide +kernel
  refine ⟨hspelled, ?_, ?_⟩
  · rw [← hvalue]
    exact number_rounded.2.1 _ hspelled
  · rw [← hvalue]
    exact (number_rounded.2.2.2.1 _ _ hspelled (.front _)).2

end Abacus
