import Abacus.Decimal.Layout
import Abacus.Proofs.Front
import Abacus.Proofs.Shortest
import Mathlib.Data.List.Basic

/-!
# Written decimals — what the digits, the point and the power denote

A written decimal has up to three parts (`Written`): digits, digits behind
a point, and a power of ten. What it denotes is read off them: all digits
as one number, and the power less one for each digit behind the point
(`Written.denotes`). Both ways a layout writes a decimal are such texts and
denote the decimal's own value (`exists_spread`, `exists_withExponent`),
with the very digits of the decimal unless a whole number is filled up with
zeros. `Decimal.ofText` goes back from the text.
-/

namespace Abacus

/-! ## Digits of numbers -/

/-- A number other than zero begins with another digit. -/
theorem head?_toDigits_ne_zero {n : Nat} (h : 0 < n) : (Nat.toDigits 10 n).head? ≠ some '0' := by
  induction n using Nat.strong_induction_on with
  | _ n ih =>
    rcases Nat.lt_or_ge n 10 with hlt | hge
    · rw [Nat.toDigits_of_lt_base hlt, List.head?_singleton]
      simpa using h.ne'
    · rw [Nat.toDigits_of_base_le (by decide) hge,
        List.head?_append_of_ne_nil _ Nat.toDigits_ne_nil]
      exact ih (n / 10) (Nat.div_lt_self h (by decide)) (Nat.div_pos hge (by decide))

/-- Digits that begin with a zero are those of zero. -/
theorem toDigits_eq_of_head? {n : Nat} (h : (Nat.toDigits 10 n).head? = some '0') :
    n = 0 ∧ Nat.toDigits 10 n = ['0'] := by
  obtain rfl : n = 0 := by
    by_contra hne
    exact head?_toDigits_ne_zero (Nat.pos_of_ne_zero hne) h
  exact ⟨rfl, Nat.toDigits_zero 10⟩

theorem isDigit_toDigits (n : Nat) : ∀ c ∈ Nat.toDigits 10 n, c.isDigit := fun _ hc =>
  Nat.isDigit_of_mem_toDigits (by decide) (by decide) hc

/-- Digits in a row, as a number, are less than the power of their count. -/
theorem ofDigitChars_lt {ds : List Char} (h : ∀ c ∈ ds, c.isDigit) :
    Nat.ofDigitChars 10 ds 0 < 10 ^ ds.length := by
  induction ds with
  | nil => simp
  | cons d ds ih =>
    have hd : d.toNat - '0'.toNat ≤ 9 := by
      have := h d List.mem_cons_self
      simp only [Char.isDigit, Bool.and_eq_true, decide_eq_true_eq] at this
      have h9 : d.toNat ≤ 57 := this.2
      change d.toNat - 48 ≤ 9
      omega
    have hrest := ih fun c hc => h c (List.mem_cons_of_mem _ hc)
    have := Nat.mul_le_mul_left (10 ^ ds.length) hd
    rw [Nat.ofDigitChars_cons, Nat.ofDigitChars_eq_ofDigitChars_zero, List.length_cons, Nat.pow_succ,
      Nat.mul_zero, Nat.zero_add]
    omega

/-! ## Written decimals -/

/-- A decimal as it is written: digits, digits behind a point, and a power
of ten. A part left out is none. A zero in front stands alone. -/
structure Written where
  whole : List Char
  places : Option (List Char)
  power : Option Int
  whole_ne_nil : whole ≠ []
  isDigit_whole : ∀ c ∈ whole, c.isDigit
  zero_alone : whole.head? = some '0' → whole = ['0']
  places_ne_nil : places ≠ some []
  isDigit_places : ∀ c ∈ places.getD [], c.isDigit

namespace Written

/-- The point with the digits behind it. -/
def fraction (w : Written) : List Char := w.places.elim [] fun fs => '.' :: fs

/-- The mark with the power of ten. -/
def exponent (plusSign : Bool) (w : Written) : List Char :=
  w.power.elim [] fun p =>
    'e' :: ((if p < 0 then ['-'] else if plusSign then ['+'] else []) ++ Nat.toDigits 10 p.natAbs)

/-- The parts in a row. -/
def text (plusSign : Bool) (w : Written) : List Char := w.whole ++ w.fraction ++ w.exponent plusSign

/-- All digits without the point. -/
def digits (w : Written) : List Char := w.whole ++ w.places.getD []

/-- **What is denoted**: the digits as one number, and the power less one
for each digit behind the point. -/
def denotes (w : Written) : Decimal :=
  ⟨Nat.ofDigitChars 10 w.digits 0, w.power.getD 0 - (w.places.getD []).length⟩

/-- A natural number, written out. -/
def ofNatural (n : Nat) : Written where
  whole := Nat.toDigits 10 n
  places := none
  power := none
  whole_ne_nil := Nat.toDigits_ne_nil
  isDigit_whole := isDigit_toDigits n
  zero_alone := fun h => (toDigits_eq_of_head? h).2
  places_ne_nil := by simp
  isDigit_places := by simp

theorem isDigit_digits (w : Written) : ∀ c ∈ w.digits, c.isDigit := by
  intro c hc
  rcases List.mem_append.1 hc with h | h
  · exact w.isDigit_whole c h
  · exact w.isDigit_places c h

end Written

namespace Layout

section

variable {ds : List Char} {place : Int}

/-- Digits that reach behind the point are written as they are. -/
theorem exists_spread_behind (pointZero : Bool) (hne : ds ≠ []) (hdigit : ∀ c ∈ ds, c.isDigit)
    (hzero : ds.head? = some '0' → ds = ['0']) (h : place < ds.length) :
    ∃ w : Written, w.power = none ∧ (∀ plus, w.text plus = spread pointZero ds place) ∧
      w.places.isSome ∧ w.denotes = ⟨Nat.ofDigitChars 10 ds 0, place - ds.length⟩ := by
  unfold spread
  by_cases hp : place ≤ 0
  · rw [if_pos hp]
    refine ⟨⟨['0'], some (List.replicate (-place).toNat '0' ++ ds), none, by simp, by simp,
      fun _ => rfl, by simp [hne], fun c hc => ?_⟩, rfl,
      fun _ => by simp [Written.text, Written.fraction, Written.exponent], rfl, ?_⟩
    · rcases List.mem_append.1 hc with h | h
      · rw [List.eq_of_mem_replicate h]
        decide
      · exact hdigit c h
    · simp [Written.denotes, Written.digits, Nat.ofDigitChars_append, Nat.ofDigitChars_cons,
        Nat.ofDigitChars_replicate_zero]
      omega
  · rw [if_neg hp]
    obtain ⟨k, rfl⟩ := Int.eq_ofNat_of_zero_le (by omega : 0 ≤ place)
    have hk : k < ds.length := by omega
    have hdrop : ds.drop k ≠ [] := by simpa using hk
    refine ⟨⟨ds.take k, some (ds.drop k), none, ?_, fun c hc => hdigit c (List.mem_of_mem_take hc),
      fun hhead => ?_, by simpa using hk, fun c hc => hdigit c (List.mem_of_mem_drop hc)⟩, rfl,
      fun _ => ?_, rfl, ?_⟩
    · simp [hne]
      omega
    · have hds := hzero (by rwa [List.head?_take, if_neg (by omega)] at hhead)
      simp [hds] at hk
      omega
    · have hnone : k - ds.length = 0 := by omega
      simp [Written.text, Written.fraction, Written.exponent, hnone, hk]
    · simp [Written.denotes, Written.digits]
      omega

/-- A whole number is filled up with zeros to the point. -/
theorem exists_spread_filled (pointZero : Bool) (hne : ds ≠ []) (hdigit : ∀ c ∈ ds, c.isDigit)
    (hzero : ds.head? = some '0' → ds = ['0'] ∧ place ≤ 1) (h : ds.length ≤ place) :
    ∃ w : Written, w.power = none ∧ (∀ plus, w.text plus = spread pointZero ds place) ∧
      w.whole = ds ++ List.replicate (place.toNat - ds.length) '0' ∧
      w.places = if pointZero then some ['0'] else none := by
  have hpos : 0 < ds.length := List.length_pos_of_ne_nil hne
  unfold spread
  rw [if_neg (by omega)]
  obtain ⟨k, rfl⟩ := Int.eq_ofNat_of_zero_le (by omega : 0 ≤ place)
  have hk : ds.length ≤ k := by omega
  refine ⟨⟨ds ++ List.replicate (k - ds.length) '0', if pointZero then some ['0'] else none, none,
    by simp [hne], fun c hc => ?_, fun hhead => ?_, ?_, fun c hc => ?_⟩, rfl, fun _ => ?_, rfl, rfl⟩
  · rcases List.mem_append.1 hc with h | h
    · exact hdigit c h
    · rw [List.eq_of_mem_replicate h]
      decide
  · rw [List.head?_append_of_ne_nil _ hne] at hhead
    obtain ⟨hds, hone⟩ := hzero hhead
    simp [hds]
    omega
  · split <;> simp
  · cases pointZero
    · simp at hc
    · simp only [if_true, Option.getD_some, List.mem_singleton] at hc
      rw [hc]
      decide
  · cases pointZero <;>
      simp [Written.text, Written.fraction, Written.exponent, List.take_of_length_le hk,
        List.drop_eq_nil_of_le hk]

end

variable {d : Decimal}

/-- **Digits around a point denote the value.** They are the decimal's own,
unless it is a whole number and filled up with zeros. -/
theorem exists_spread (pointZero : Bool) (hzero : d.digits = 0 → d.exponent ≤ 0) :
    ∃ w : Written, w.power = none ∧
      (∀ plus, w.text plus = spread pointZero (Nat.toDigits 10 d.digits)
        ((Nat.toDigits 10 d.digits).length + d.exponent)) ∧
      w.denotes.value = d.value ∧
      (w.places.isSome ∧ w.denotes = d ∨
        (w.places = if pointZero then some ['0'] else none) ∧
          (w.whole.length : ℤ) = (Nat.toDigits 10 d.digits).length + d.exponent) := by
  have hne : Nat.toDigits 10 d.digits ≠ [] := Nat.toDigits_ne_nil
  have hdigit := isDigit_toDigits d.digits
  have hhead := @toDigits_eq_of_head? d.digits
  have hdigits : Nat.ofDigitChars 10 (Nat.toDigits 10 d.digits) 0 = d.digits :=
    Nat.ofDigitChars_ten_toDigits
  generalize Nat.toDigits 10 d.digits = ds at *
  rcases Int.lt_or_le d.exponent 0 with hneg | hnonneg
  · obtain ⟨w, hpower, htext, hplaces, hdenotes⟩ := exists_spread_behind pointZero hne hdigit
      (fun h => (hhead h).2) (by omega : (ds.length + d.exponent : ℤ) < ds.length)
    rw [hdigits, add_sub_cancel_left] at hdenotes
    exact ⟨w, hpower, htext, by rw [hdenotes], .inl ⟨hplaces, hdenotes⟩⟩
  · have hfilled : (ds.length : ℤ) ≤ ds.length + d.exponent := by omega
    obtain ⟨w, hpower, htext, hwhole, hplaces⟩ := exists_spread_filled pointZero hne hdigit
      (fun h => ⟨(hhead h).2, by have := hzero (hhead h).1; simp [(hhead h).2]; omega⟩) hfilled
    refine ⟨w, hpower, htext, ?_, .inr ⟨hplaces, ?_⟩⟩
    · obtain ⟨k, hk⟩ := Int.eq_ofNat_of_zero_le hnonneg
      have hzeros : ((ds.length : ℤ) + d.exponent).toNat - ds.length = k := by omega
      rw [Written.denotes, Written.digits, hpower, hwhole, hplaces, hzeros, Decimal.value,
        Decimal.value, hk, zpow_natCast]
      cases pointZero <;>
        simp [Nat.ofDigitChars_append, Nat.ofDigitChars_replicate_zero, Nat.ofDigitChars_cons,
          hdigits] <;> ring
    · rw [hwhole]
      simp
      omega

/-- **One digit before the point** and a power of ten denote the value. -/
theorem exists_withExponent (d : Decimal) :
    ∃ w : Written, w.power = some ((Nat.toDigits 10 d.digits).length + d.exponent - 1) ∧
      (∀ plus, w.text plus = withExponent plus (Nat.toDigits 10 d.digits)
        ((Nat.toDigits 10 d.digits).length + d.exponent - 1)) ∧ w.denotes = d := by
  have hne : Nat.toDigits 10 d.digits ≠ [] := Nat.toDigits_ne_nil
  have hdigit := isDigit_toDigits d.digits
  have hdigits : Nat.ofDigitChars 10 (Nat.toDigits 10 d.digits) 0 = d.digits :=
    Nat.ofDigitChars_ten_toDigits
  generalize Nat.toDigits 10 d.digits = ds at *
  obtain ⟨c, cs, rfl⟩ := List.exists_cons_of_ne_nil hne
  refine ⟨⟨[c], if cs.isEmpty then none else some cs, some ((c :: cs).length + d.exponent - 1),
    by simp, ?_, fun h => ?_, ?_, ?_⟩, rfl, fun plus => ?_, ?_⟩
  · simpa using hdigit c
  · simpa using h
  · cases cs <;> simp
  · cases cs <;> simp_all
  · cases cs <;> simp [Written.text, Written.fraction, Written.exponent, withExponent]
  · obtain ⟨D, e⟩ := d
    cases cs with
    | nil => simp_all [Written.denotes, Written.digits]
    | cons _ cs =>
      simp_all [Written.denotes, Written.digits]
      omega

/-- **A decimal in a layout denotes its value.** A layout that writes out all
needs no power of ten, and one with a zero behind the point always shows
that it is no whole number. -/
theorem exists_writeDecimal (l : Layout) (hzero : d.digits = 0 → d.exponent ≤ 0) :
    ∃ w : Written, l.writeDecimal d = w.text l.plusSign ∧ w.denotes.value = d.value ∧
      (l.writtenOut = none → w.power = none) ∧
      (l.pointZero → w.places.isSome ∨ w.power.isSome) := by
  obtain ⟨w, hpower, htext, hvalue, hform⟩ := exists_spread l.pointZero hzero
  obtain ⟨u, hpower', htext', hdenotes⟩ := exists_withExponent d
  have hplaces : l.pointZero → w.places.isSome := by
    intro hpoint
    rcases hform with ⟨hsome, -⟩ | ⟨hzeros, -⟩
    · exact hsome
    · rw [hzeros, if_pos hpoint]
      rfl
  unfold writeDecimal
  cases hout : l.writtenOut with
  | none => exact ⟨w, (htext _).symm, hvalue, fun _ => hpower, fun h => .inl (hplaces h)⟩
  | some range =>
    have hsome : u.power.isSome := by rw [hpower']; rfl
    have hrange : ∀ {p : Option Int}, some range = none → p = none := fun h => by cases h
    dsimp only
    split
    · exact ⟨w, (htext _).symm, hvalue, hrange, fun h => .inl (hplaces h)⟩
    · exact ⟨u, (htext' _).symm, by rw [hdenotes], hrange, fun _ => .inr hsome⟩

end Layout

/-! ## Back from the text -/

/-- **What a written number denotes**, whatever its sign: its digits as one
number, and the power after the mark less one for each digit behind the
point. -/
def Decimal.ofText (text : List Char) : Decimal :=
  let mantissa := text.takeWhile (· != 'e')
  let mark := text.dropWhile (· != 'e')
  let power := Nat.ofDigitChars 10 (mark.filter Char.isDigit) 0
  ⟨Nat.ofDigitChars 10 (mantissa.filter Char.isDigit) 0,
    (if mark.contains '-' then -(power : ℤ) else power) -
      ((mantissa.dropWhile (· != '.')).filter Char.isDigit).length⟩

/-- A digit is neither a sign, nor a point, nor a mark. -/
theorem ne_of_isDigit {c d : Char} (hc : c.isDigit) (hd : d.isDigit = false) : c ≠ d := by
  rintro rfl
  simp [hc] at hd

namespace Written

theorem filter_isDigit {ds : List Char} (h : ∀ c ∈ ds, c.isDigit) : ds.filter Char.isDigit = ds :=
  List.filter_eq_self.2 h

theorem filter_fraction (w : Written) : w.fraction.filter Char.isDigit = w.places.getD [] := by
  have h := w.isDigit_places
  unfold fraction
  cases hp : w.places with
  | none => rfl
  | some fs =>
    rw [hp] at h
    rw [Option.elim_some, List.filter_cons_of_neg (by decide)]
    exact filter_isDigit h

theorem isDigit_or_point (w : Written) : ∀ c ∈ w.whole ++ w.fraction, c.isDigit ∨ c = '.' := by
  intro c hc
  rcases List.mem_append.1 hc with h | h
  · exact .inl (w.isDigit_whole c h)
  · have hplaces := w.isDigit_places c
    unfold fraction at h
    cases hp : w.places with
    | none => simp [hp] at h
    | some fs =>
      rw [hp, Option.elim_some, List.mem_cons] at h
      rw [hp, Option.getD_some] at hplaces
      exact h.symm.imp_left hplaces

/-- **Which characters a written decimal has**: digits, the point, the mark
and the signs. -/
theorem mem_text_cases {w : Written} {plusSign : Bool} {c : Char} (h : c ∈ w.text plusSign) :
    c.isDigit ∨ c ∈ ['.', 'e', '+', '-'] := by
  rcases List.mem_append.1 h with h | h
  · rcases w.isDigit_or_point c h with h | rfl
    · exact .inl h
    · exact .inr (by simp)
  · unfold exponent at h
    cases hp : w.power with
    | none => simp [hp] at h
    | some p =>
      rw [hp, Option.elim_some, List.mem_cons, List.mem_append] at h
      rcases h with rfl | h | h
      · exact .inr (by simp)
      · have hsign : c = '-' ∨ c = '+' := by
          split at h
          · exact .inl (List.mem_singleton.1 h)
          · split at h
            · exact .inr (List.mem_singleton.1 h)
            · cases h
        exact .inr (by rcases hsign with rfl | rfl <;> simp)
      · exact .inl (isDigit_toDigits _ c h)

/-- The signed power of ten, back from its text. -/
theorem power_exponent (w : Written) (plusSign : Bool) :
    (if (w.exponent plusSign).contains '-' then
        -(Nat.ofDigitChars 10 ((w.exponent plusSign).filter Char.isDigit) 0 : ℤ)
      else Nat.ofDigitChars 10 ((w.exponent plusSign).filter Char.isDigit) 0) = w.power.getD 0 := by
  unfold exponent
  cases w.power with
  | none => rfl
  | some p =>
    have hdigit := isDigit_toDigits p.natAbs
    have hminus : '-' ∉ Nat.toDigits 10 p.natAbs := fun h => ne_of_isDigit (hdigit _ h) rfl rfl
    have hvalue : Nat.ofDigitChars 10 (Nat.toDigits 10 p.natAbs) 0 = p.natAbs :=
      Nat.ofDigitChars_ten_toDigits
    have hfilter := filter_isDigit hdigit
    rw [Option.elim_some, Option.getD_some]
    generalize Nat.toDigits 10 p.natAbs = ds at *
    by_cases hp : p < 0
    · simp [hp, hfilter, hvalue, abs_of_neg hp]
    · cases plusSign <;> simp [hp, hminus, hfilter, hvalue] <;> omega

/-- **The text of a written decimal tells what it denotes.** -/
theorem ofText_text (w : Written) (plusSign : Bool) :
    Decimal.ofText (w.text plusSign) = w.denotes := by
  have hmark : ∀ c ∈ w.whole ++ w.fraction, (c != 'e') = true := fun c hc => by
    rcases w.isDigit_or_point c hc with h | rfl
    · simpa using ne_of_isDigit h rfl
    · rfl
  have hstop : Stops (· != 'e') (w.exponent plusSign) := by
    unfold exponent
    cases w.power with
    | none => exact .nil
    | some p => exact Stops.cons.2 rfl
  have hwhole : ∀ c ∈ w.whole, (c != '.') = true := fun c hc => by
    simpa using ne_of_isDigit (w.isDigit_whole c hc) rfl
  have hpoint : Stops (· != '.') w.fraction := by
    unfold fraction
    cases w.places with
    | none => exact .nil
    | some fs => exact Stops.cons.2 rfl
  unfold Decimal.ofText denotes
  dsimp only
  rw [text, hstop.takeWhile_append hmark, hstop.dropWhile_append hmark,
    hpoint.dropWhile_append hwhole, List.filter_append, filter_isDigit w.isDigit_whole,
    filter_fraction, power_exponent, digits]

end Written

end Abacus
