import Abacus.Proofs.Seam
import Abacus.Proofs.Written

/-!
# Rereading — formatted tokens, parsed again

Single spaces keep the texts of tokens apart, so a formatted list is parsed
text by text (`parse_joinSpaced`), and each token has its own answer
(`Token.expand`). Symbols come back. The text of a finite number is one
numeral and its value the same double, since the shortest decimal reads
back; a sign in front is a subtraction. The words for the infinity and for
what is no number are noise. So parsing undoes formatting up to what
expressions cannot say, and undoes it entirely on what was parsed with
finite numbers (`parse_formatTokens`).
-/

namespace Abacus

open Lexeme

/-! ## Texts between spaces -/

/-- A symbol in front of a text is parsed by itself. -/
theorem parse_symbol_cons {c : Char} {t : Token} (h : Token.ofGlyph? c = some t)
    (rest : List Char) : parse (c :: rest) = t :: parse rest := by
  rw [parse_eq_filterMap, parse_eq_filterMap, pieces_symbol_cons h, List.filterMap_cons]

theorem parse_nil : parse [] = [] := by
  rw [parse_eq_filterMap, pieces_nil, List.filterMap_nil]

/-- Noise alone has no tokens. -/
theorem parse_noise {text : List Char} (h : text.all fun c => !Glyph.isRecognized c) :
    parse text = [] := by
  have hnoise : ∀ c ∈ text, Glyph.isRecognized c = false := by simpa using h
  have := pieces_noise_append hnoise []
  rw [List.append_nil, pieces_nil, List.append_nil] at this
  rw [parse_eq_filterMap, this, List.filterMap_map]
  simp [noiseOf]

/-- The text of one number is that number. -/
theorem parse_leads {text : List Char} (h : Numeral.Leads text []) :
    parse text = [.number (Numeral.value text)] := by
  have := pieces_of_leads (Lexeme.Leads.number h)
  rw [ofNumeral, List.append_nil, pieces_nil, List.append_nil] at this
  rw [parse_eq_filterMap, this]
  rfl

/-- A space keeps apart what is parsed. -/
theorem separates_space : Lexeme.Separates ⟨[' '], none⟩ :=
  .noise (by simp) (List.forall_mem_singleton.2 (by decide))

/-- **Texts with spaces between are parsed one by one.** -/
theorem parse_joinSpaced (texts : List (List Char)) :
    parse (joinSpaced texts) = texts.flatMap parse := by
  unfold joinSpaced
  induction texts with
  | nil => rw [List.intercalate_nil, List.flatMap_nil, parse_nil]
  | cons text texts ih =>
    cases texts with
    | nil => simp
    | cons next texts =>
      rw [List.intercalate_cons_cons, List.flatMap_cons, ← ih]
      simp only [parse_eq_filterMap]
      rw [separates_space.pieces_append, List.filterMap_append, List.filterMap_append]
      simp [shred, noiseOf]

/-! ## Numerals -/

namespace Written

/-- Without a power of ten, a written decimal is one numeral. -/
theorem leads_text {w : Written} (hpower : w.power = none) (plusSign : Bool) :
    Numeral.Leads (w.text plusSign) [] := by
  have hdigit := w.isDigit_places
  rw [text, exponent, hpower, Option.elim_none, List.append_nil, fraction]
  cases hp : w.places with
  | none =>
    rw [Option.elim_none, List.append_nil]
    exact .whole w.whole_ne_nil w.isDigit_whole .nil
  | some fs =>
    rw [hp, Option.getD_some] at hdigit
    exact .decimal w.whole_ne_nil w.isDigit_whole hdigit .nil

/-- **Its value is the double nearest to what it denotes.** -/
theorem value_text {w : Written} (hpower : w.power = none) (plusSign : Bool) :
    Numeral.value (w.text plusSign) = .ofMagnitude false w.denotes.magnitude := by
  have hstop : Stops Char.isDigit w.fraction := by
    unfold fraction
    cases w.places with
    | none => exact .nil
    | some fs => exact Stops.cons.2 rfl
  have hplaces : Numeral.places (w.text plusSign) = (w.places.getD []).length := by
    rw [Numeral.places, text, exponent, hpower, Option.elim_none, List.append_nil,
      hstop.dropWhile_append w.isDigit_whole, fraction]
    cases w.places <;> simp
  have hdigits : Numeral.digits (w.text plusSign) = w.digits := by
    rw [Numeral.digits, text, exponent, hpower, Option.elim_none, List.append_nil,
      List.filter_append, filter_isDigit w.isDigit_whole, filter_fraction, digits]
  have hvalue : (Nat.ofDigitChars 10 w.digits 0 : ℚ) /
      (Nat.pow 10 (w.places.getD []).length : Nat) = w.denotes.value := by
    rw [denotes, Decimal.value, hpower, Option.getD_none, zero_sub, zpow_neg, zpow_natCast,
      Nat.pow_eq, Nat.cast_pow, div_eq_mul_inv]
    rfl
  rw [Numeral.value, hplaces, hdigits, Binary64.ofRatio,
    Decimal.roundRatio_eq_magnitude (Decimal.ten_pow_pos _) hvalue]

end Written

/-! ## What tokens come back as -/

namespace Binary64

/-- The same magnitude without a sign. -/
def absolute (v : Binary64) : Binary64 := { v with negative := false }

/-- A finite magnitude that is cut off at the infinity stays. -/
theorem ofMagnitude_magnitude {v : Binary64} (h : v.isFinite) :
    ofMagnitude false v.magnitude = v.absolute := by
  have hle : v.magnitude ≤ infiniteMagnitude := (of_decide_eq_true h).le
  simp only [ofMagnitude, absolute, Nat.min_eq_right hle]

end Binary64

namespace Token

/-- **What a token's text is parsed as.** A symbol is itself. A finite number
is the number without its sign, which is a subtraction in front. An
infinity leaves its sign alone, and what is no number leaves nothing. -/
def expand : Token → List Token
  | .number v =>
    if v.isNaN then []
    else (if v.negative then [.operator .subtract] else []) ++
      (if v.isFinite then [.number v.absolute] else [])
  | t => [t]

/-- **A finite number is written out without a power of ten**, and its text
denotes it. -/
theorem exists_written {v : Binary64} (h : v.isFinite) :
    ∃ w : Written, w.power = none ∧ w.denotes.magnitude = v.magnitude ∧
      numberLayout.writeDecimal (Decimal.shortest .up v.magnitude) = w.text false := by
  have hm : v.magnitude < Binary64.infiniteMagnitude := of_decide_eq_true h
  obtain ⟨w, htext, hvalue, hpower, -⟩ :=
    numberLayout.exists_writeDecimal (Decimal.exponent_shortest_le .up hm)
  exact ⟨w, hpower rfl,
    by rw [Decimal.magnitude_congr hvalue, Decimal.magnitude_shortest .up hm], htext⟩

/-- The text of a finite number without its sign. -/
theorem parse_writeDecimal {v : Binary64} (h : v.isFinite) :
    parse (numberLayout.writeDecimal (Decimal.shortest .up v.magnitude)) =
      [.number v.absolute] := by
  obtain ⟨w, hpower, hmagnitude, htext⟩ := exists_written h
  rw [htext, parse_leads (Written.leads_text hpower false), Written.value_text hpower, hmagnitude,
    Binary64.ofMagnitude_magnitude h]

/-- **The text of a token is parsed as what the token expands to.** -/
theorem parse_text (t : Token) : parse t.text = t.expand := by
  cases t with
  | operator o =>
    rw [text, expand, parse_symbol_cons (ofGlyph?_eq_some_iff.2 (.inl ⟨o, rfl, rfl⟩)), parse_nil]
    simp
  | parenthesis p =>
    rw [text, expand, parse_symbol_cons (ofGlyph?_eq_some_iff.2 (.inr ⟨p, rfl, rfl⟩)), parse_nil]
    simp
  | number v =>
    unfold text expand Layout.write
    dsimp only
    by_cases hnan : v.isNaN
    · rw [if_pos hnan, if_pos hnan]
      exact parse_noise (by decide)
    · rw [if_neg hnan, if_neg hnan]
      have hrest : parse (if v.isInfinite then ['i', 'n', 'f']
          else numberLayout.writeDecimal (Decimal.shortest numberLayout.tie v.magnitude)) =
            if v.isFinite then [.number v.absolute] else [] := by
        by_cases hinf : v.isInfinite
        · rw [if_pos hinf, if_neg (by simp [Binary64.isFinite_iff, hinf])]
          exact parse_noise (by decide)
        · have hfinite : v.isFinite := by simp [Binary64.isFinite_iff, hinf, hnan]
          rw [if_neg hinf, if_pos hfinite]
          exact parse_writeDecimal hfinite
      by_cases hneg : v.negative
      · rw [if_pos hneg, if_pos hneg, List.singleton_append, parse_symbol_cons rfl, hrest]
        rfl
      · rw [if_neg hneg, if_neg hneg, List.nil_append, hrest, List.nil_append]

end Token

/-! ## What was parsed -/

/-- **A number that was parsed is the value of a run of the text.** -/
theorem exists_run_of_mem_parse {s : List Char} {v : Binary64} (h : .number v ∈ parse s) :
    ∃ before text after, s = before ++ text ++ after ∧ Numeral.Leads text after ∧
      v = Numeral.value text := by
  rw [parse_eq_filterMap, List.mem_filterMap] at h
  obtain ⟨l, hl, ht⟩ := h
  obtain ⟨xs, ys, hpieces⟩ := List.append_of_mem hl
  have hinput : s = texts xs ++ l.text ++ texts ys := by
    rw [← texts_pieces s, hpieces, texts_append, texts_cons, List.append_assoc]
  cases fits_of_pieces hpieces with
  | @number text _ hleads =>
    obtain rfl : Numeral.value text = v := by
      injection ht with ht
      injection ht
    exact ⟨texts xs, text, texts ys, hinput, hleads, rfl⟩
  | symbol hsymbol =>
    obtain rfl := Option.some.inj ht
    exact absurd hsymbol (Token.ofGlyph?_ne_number _ _)
  | noise _ => cases ht
  | point _ => cases ht

/-- So it has no sign and is a number. -/
theorem number_of_mem_parse {s : List Char} {v : Binary64} (h : .number v ∈ parse s) :
    v.negative = false ∧ v.isNaN = false := by
  obtain ⟨-, text, -, -, -, rfl⟩ := exists_run_of_mem_parse h
  exact ⟨rfl, Binary64.isNaN_ofRatio ..⟩

namespace Token

/-- A token that may be parsed: if it has a value, that has no sign and is a
number. -/
def Unsigned (t : Token) : Prop := ∀ v ∈ t.value?, v.negative = false ∧ v.isNaN = false

theorem unsigned_of_mem_parse {s : List Char} {t : Token} (h : t ∈ parse s) : t.Unsigned := by
  intro v hv
  cases t with
  | number w =>
    obtain rfl := Option.some.inj hv
    exact number_of_mem_parse h
  | operator _ => cases hv
  | parenthesis _ => cases hv

/-- **Only its being infinite keeps it from coming back.** -/
theorem Unsigned.expand_eq {t : Token} (h : t.Unsigned) :
    t.expand = if t.value?.any Binary64.isInfinite then [] else [t] := by
  cases t with
  | number v =>
    obtain ⟨hneg, hnan⟩ := h v rfl
    have habsolute : v.absolute = v := by simp [Binary64.absolute, ← hneg]
    cases hinf : v.isInfinite <;>
      simp [expand, value?, Binary64.isFinite_iff, hnan, hneg, hinf, habsolute]
  | operator _ => rfl
  | parenthesis _ => rfl

end Token

/-- So all but the infinite ones come back. -/
theorem flatMap_expand {ts : List Token} (h : ∀ t ∈ ts, t.Unsigned) :
    ts.flatMap Token.expand = ts.filter fun t => !(t.value?.any Binary64.isInfinite) := by
  induction ts with
  | nil => rfl
  | cons t ts ih =>
    rw [List.flatMap_cons, ih fun u hu => h u (List.mem_cons_of_mem _ hu), List.filter_cons,
      (h t List.mem_cons_self).expand_eq]
    cases t.value?.any Binary64.isInfinite <;> rfl

/-- **Parsing undoes formatting.** What is parsed from formatted tokens is
what each of them expands to. So of what was parsed before, only infinite
numbers are lost, and nothing where there are none. -/
theorem parse_formatTokens :
    (∀ ts, parse (formatTokens ts) = ts.flatMap Token.expand) ∧
      (∀ s, parse (formatTokens (parse s)) =
        (parse s).filter fun t => !(t.value?.any Binary64.isInfinite)) ∧
      ∀ s, (∀ v, .number v ∈ parse s → v.isFinite) → parse (formatTokens (parse s)) = parse s := by
  have hexpand : ∀ ts, parse (formatTokens ts) = ts.flatMap Token.expand := fun ts => by
    rw [formatTokens, parse_joinSpaced, List.flatMap_map]
    exact List.flatMap_congr fun t _ => Token.parse_text t
  have hparsed : ∀ s, parse (formatTokens (parse s)) =
      (parse s).filter fun t => !(t.value?.any Binary64.isInfinite) := fun s => by
    rw [hexpand, flatMap_expand fun _ => Token.unsigned_of_mem_parse]
  refine ⟨hexpand, hparsed, fun s hs => ?_⟩
  rw [hparsed, List.filter_eq_self]
  intro t ht
  cases t with
  | number v => simp [Token.value?, (Binary64.isFinite_iff.1 (hs v ht)).2]
  | operator _ => rfl
  | parenthesis _ => rfl

/-- The numbers of `.5x2` are finite. -/
theorem parse_formatTokens_finite :
    (∀ v, .number v ∈ parse ['.', '5', 'x', '2'] → v.isFinite) ∧
      parse (formatTokens (parse ['.', '5', 'x', '2'])) = parse ['.', '5', 'x', '2'] := by
  have hall : (parse ['.', '5', 'x', '2']).all fun t => t.value?.all Binary64.isFinite := by
    decide +kernel
  have hfinite : ∀ v, .number v ∈ parse ['.', '5', 'x', '2'] → v.isFinite := fun v hv => by
    simpa [Token.value?] using List.all_eq_true.1 hall _ hv
  exact ⟨hfinite, parse_formatTokens.2.2 _ hfinite⟩

end Abacus
