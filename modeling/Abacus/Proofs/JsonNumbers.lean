import Abacus.Proofs.JsonReading
import Abacus.Proofs.Scaling
import Abacus.Proofs.Written

/-!
# Numbers in documents — printed doubles, read back

A number is read by its parts: digits, digits behind a point, a power of
ten. Of a written number (`Written`) the reader takes exactly these, and it
comes to the decimal that is denoted, scaled (`reads_numeric`). What is
printed of a finite double is such a text (`exists_printed`), with few
enough digits to be collected whole, so it is always read
(`exists_reread`), and it comes back the same where nothing is rounded on
the way (`reread_of_exact`). What is not finite is printed as null, and
null is no double (`refuses_double_null`).
-/

namespace Abacus

namespace Json

/-! ## Digits -/

theorem toNat_of_isDigit {c : Char} (h : c.isDigit) : 48 ≤ c.toNat ∧ c.toNat ≤ 57 := by
  simp only [Char.isDigit, Bool.and_eq_true, decide_eq_true_eq] at h
  exact h

theorem lt_of_isDigit {c : Char} (h : c.isDigit) : c.toNat < 0x80 := by
  have := (toNat_of_isDigit h).2
  omega

theorem isDigit_byte {c : Char} (h : c.isDigit) : isDigit (byte c) := by
  obtain ⟨hlow, hhigh⟩ := toNat_of_isDigit h
  simp only [isDigit, Bool.and_eq_true, decide_eq_true_eq, UInt8.le_iff_toNat_le,
    toNat_byte (lt_of_isDigit h)]
  exact ⟨hlow, hhigh⟩

theorem isBlank_of_isDigit {b : UInt8} (h : isDigit b) : isBlank b = false := by
  by_contra hblank
  simp only [isBlank, Bool.not_eq_false, Bool.or_eq_true, beq_iff_eq] at hblank
  rcases hblank with ((rfl | rfl) | rfl) | rfl <;> exact absurd h (by decide)

theorem isDigit_ascii {ds : List Char} (h : ∀ c ∈ ds, c.isDigit) : ∀ b ∈ ascii ds, isDigit b := by
  intro b hb
  obtain ⟨c, hc, rfl⟩ := List.mem_map.1 hb
  exact isDigit_byte (h c hc)

/-- More digits make no smaller number. -/
theorem le_ofDigitChars (n : Nat) (ds : List Char) : n ≤ Nat.ofDigitChars 10 ds n := by
  rw [Nat.ofDigitChars_eq_ofDigitChars_zero]
  exact le_trans (Nat.le_mul_of_pos_left n (Nat.pow_pos (by decide))) (Nat.le_add_right _ _)

/-- **Digits are collected whole** while the number they make is within the
limit. -/
theorem collect_ascii {limit n : Nat} {ds : List Char} (hdigit : ∀ c ∈ ds, c.isDigit)
    (hle : Nat.ofDigitChars 10 ds n ≤ limit) :
    collect limit n (ascii ds) = (Nat.ofDigitChars 10 ds n, []) := by
  induction ds generalizing n with
  | nil => rfl
  | cons d ds ih =>
    rw [Nat.ofDigitChars_cons] at hle ⊢
    have hd : n * 10 + ((byte d).toNat - 48) = 10 * n + (d.toNat - '0'.toNat) := by
      rw [toNat_byte (lt_of_isDigit (hdigit d List.mem_cons_self)), Nat.mul_comm]
      rfl
    have hfits : 10 * n + (d.toNat - '0'.toNat) ≤ limit := le_trans (le_ofDigitChars _ _) hle
    rw [ascii_cons, collect, hd, if_pos hfits]
    exact ih (fun c hc => hdigit c (List.mem_cons_of_mem _ hc)) hle

namespace Ends

variable {rest : List UInt8}

theorem not_isDigit (h : Ends rest) : ∀ b ∈ rest.head?, isDigit b = false := by
  simpa using h.of_all (p := fun b => !isDigit b) (by decide)

/-- Neither a point nor an exponent goes on there. -/
theorem head?_ne (h : Ends rest) :
    rest.head? ≠ some (byte '.') ∧ isExponentMark rest.head? = false := by
  have hne := h.of_all (p := fun b => b != byte '.' && !isExponentMark (some b)) (by decide)
  simp only [Bool.and_eq_true, bne_iff_ne, Bool.not_eq_true'] at hne
  cases rest with
  | nil => exact ⟨by simp, rfl⟩
  | cons b bs => exact ⟨fun hb => (hne b rfl).1 (Option.some.inj hb), (hne b rfl).2⟩

end Ends

/-! ## Numbers -/

/-- The digits after the first are all taken. -/
theorem reads_moreDigits {d : Char} {ds : List Char} {after : List UInt8}
    (hzero : d = '0' → ds = []) (hdigit : ∀ c ∈ ds, c.isDigit)
    (hafter : ∀ b ∈ after.head?, isDigit b = false) (hd : d.isDigit) :
    Reads (moreDigits (byte d)) (ascii ds ++ after) (ascii ds) after := by
  unfold moreDigits
  by_cases hbyte : byte d = byte '0'
  · obtain rfl : ds = [] := hzero (byte_inj (lt_of_isDigit hd) (by decide) hbyte)
    rw [if_pos hbyte]
    refine (reads_peek _).bind ?_
    cases after with
    | nil => exact .pure _ _
    | cons b bs =>
      simp only [ascii_nil, List.nil_append, List.head?_cons, hafter b rfl]
      exact .pure _ _
  · rw [if_neg hbyte]
    exact reads_takeWhile (isDigit_ascii hdigit) hafter

/-- **A double is scaled** once its digits and its power of ten are known. -/
theorem reads_float {positive : Bool} {digits : Nat} {e : Int} {x : Binary64}
    (h : scale (Binary64.ofNat digits) e = some x) (before : List UInt8) :
    Reads (float positive digits e) before (signed positive x) before := by
  unfold float
  rw [h]
  exact .pure _ _

/-- The sign of a power of ten. -/
theorem reads_exponentSign (p : Int) (plusSign : Bool) {d : Char} (hd : d.isDigit)
    (after : List UInt8) :
    Reads exponentSign
      (ascii (if p < 0 then ['-'] else if plusSign then ['+'] else []) ++ byte d :: after)
      (decide (0 ≤ p)) (byte d :: after) := by
  have hplus : byte d ≠ byte '+' := fun h => by
    have := isDigit_byte hd
    rw [h] at this
    exact absurd this (by decide)
  have hminus : byte d ≠ byte '-' := fun h => by
    have := isDigit_byte hd
    rw [h] at this
    exact absurd this (by decide)
  unfold exponentSign
  refine (reads_peek _).bind ?_
  by_cases hp : p < 0
  · simp only [if_pos hp, ascii_cons, ascii_nil, List.cons_append, List.nil_append,
      List.head?_cons, Option.some.injEq, if_neg (by decide : byte '-' ≠ byte '+'), if_true,
      not_le.2 hp, decide_false]
    exact (reads_skip _ _).bind (.pure _ _)
  · cases plusSign
    · simp only [if_neg hp, if_false, Bool.false_eq_true, ascii_nil, List.nil_append,
        List.head?_cons, Option.some.injEq, if_neg hplus, if_neg hminus, not_lt.1 hp, decide_true]
      exact .pure _ _
    · simp only [if_neg hp, if_true, ascii_cons, ascii_nil, List.cons_append, List.nil_append,
        List.head?_cons, not_lt.1 hp, decide_true]
      exact (reads_skip _ _).bind (.pure _ _)

/-- **A power of ten** is added to the one there is. -/
theorem reads_exponent {positive : Bool} {digits : Nat} {e p : Int} {x : Binary64} (plusSign : Bool)
    (hp : p.natAbs ≤ largestExponent) (h : scale (Binary64.ofNat digits) (e + p) = some x)
    {rest : List UInt8} (hrest : Ends rest) :
    Reads (exponent positive digits e)
      (byte 'e' :: (ascii (if p < 0 then ['-'] else if plusSign then ['+'] else []) ++
        (ascii (Nat.toDigits 10 p.natAbs) ++ rest)))
      (signed positive x) rest := by
  have hdigit := isDigit_toDigits p.natAbs
  have hvalue : Nat.ofDigitChars 10 (Nat.toDigits 10 p.natAbs) 0 = p.natAbs :=
    Nat.ofDigitChars_ten_toDigits
  obtain ⟨d, ds, hds⟩ := List.exists_cons_of_ne_nil (Nat.toDigits_ne_nil (n := p.natAbs) (b := 10))
  rw [hds] at hdigit hvalue ⊢
  have hd := hdigit d List.mem_cons_self
  have hmore : ∀ c ∈ ds, c.isDigit := fun c hc => hdigit c (List.mem_cons_of_mem _ hc)
  have hcollect : collect largestExponent ((byte d).toNat - 48) (ascii ds) = (p.natAbs, []) := by
    have hfirst : 10 * 0 + (d.toNat - '0'.toNat) = (byte d).toNat - 48 := by
      rw [toNat_byte (lt_of_isDigit hd), Nat.mul_zero, Nat.zero_add]
      rfl
    rw [Nat.ofDigitChars_cons, hfirst] at hvalue
    rw [collect_ascii hmore (by rwa [hvalue]), hvalue]
  have hsum : (if decide (0 ≤ p) = true then e + p.natAbs else e - p.natAbs) = e + p := by
    split <;> rename_i hsign <;> rw [decide_eq_true_iff] at hsign <;> omega
  unfold exponent
  refine (reads_skip _ _).bind ?_
  refine (reads_exponentSign p plusSign hd _).bind ?_
  refine (reads_next _ _).bind ?_
  simp only [isDigit_byte hd, Bool.not_true, Bool.false_eq_true, if_false]
  refine (reads_upcoming (isDigit_ascii hmore) hrest.not_isDigit).bind ?_
  simp only [hcollect, List.isEmpty_nil, if_true]
  refine (reads_take _ _).bind ?_
  refine (reads_peek _).bind ?_
  rw [hsum]
  exact reads_float h rest

/-- What stands behind the digits of a written number is no digit. -/
theorem isDigit_exponent_append (w : Written) (plusSign : Bool) {rest : List UInt8}
    (hrest : Ends rest) : ∀ b ∈ (ascii (w.exponent plusSign) ++ rest).head?, isDigit b = false := by
  unfold Written.exponent
  cases w.power with
  | none => exact hrest.not_isDigit
  | some p =>
    intro b hb
    obtain rfl := Option.some.inj hb
    decide

theorem isDigit_fraction_append (w : Written) (plusSign : Bool) {rest : List UInt8}
    (hrest : Ends rest) :
    ∀ b ∈ (ascii w.fraction ++ (ascii (w.exponent plusSign) ++ rest)).head?, isDigit b = false := by
  have h := isDigit_exponent_append w plusSign hrest
  unfold Written.fraction
  cases w.places with
  | none => exact h
  | some fs =>
    intro b hb
    obtain rfl := Option.some.inj hb
    decide

/-- **A fraction** is read with what follows it. -/
theorem reads_fraction {w : Written} {positive : Bool} {n : Nat} {x : Binary64} {fs : List Char}
    (plusSign : Bool) (hplaces : w.places = some fs)
    (hdigits : Nat.ofDigitChars 10 fs n ≤ largestNatural)
    (hpower : ∀ p ∈ w.power, p.natAbs ≤ largestExponent)
    (h : scale (Binary64.ofNat (Nat.ofDigitChars 10 fs n)) (w.power.getD 0 - fs.length) = some x)
    {rest : List UInt8} (hrest : Ends rest) :
    Reads (fraction positive n 0)
      (byte '.' :: (ascii fs ++ (ascii (w.exponent plusSign) ++ rest)))
      (signed positive x) rest := by
  have hdigit : ∀ c ∈ fs, c.isDigit := by
    have := w.isDigit_places
    rwa [hplaces, Option.getD_some] at this
  have hne : (ascii fs).isEmpty = false := by
    cases fs with
    | nil => exact absurd hplaces w.places_ne_nil
    | cons => rfl
  unfold fraction
  refine (reads_skip _ _).bind ?_
  refine (reads_takeWhile (isDigit_ascii hdigit) (isDigit_exponent_append w plusSign hrest)).bind ?_
  simp only [hne, Bool.false_eq_true, if_false, collect_ascii hdigit hdigits]
  refine (reads_peek _).bind ?_
  have hlength : ((ascii fs).length - ([] : List UInt8).length : Nat) = fs.length := by
    simp [ascii]
  rw [hlength]
  unfold Written.exponent
  cases hp : w.power with
  | none =>
    rw [hp] at h
    rw [Option.elim_none, ascii_nil, List.nil_append, hrest.head?_ne.2]
    exact reads_float h rest
  | some p =>
    rw [hp, Option.getD_some] at h
    have hsum : (0 - fs.length + p : ℤ) = p - fs.length := by omega
    rw [Option.elim_some, ascii_cons, ascii_append, List.cons_append, List.append_assoc,
      List.head?_cons, if_pos (by decide)]
    exact reads_exponent plusSign (hpower p hp) (hsum ▸ h) hrest

/-- **The digits before the point** are taken and collected, the first by
itself. -/
theorem exists_digits (w : Written) {after : List UInt8}
    (hfits : Nat.ofDigitChars 10 w.whole 0 ≤ largestNatural)
    (hafter : ∀ b ∈ after.head?, isDigit b = false) :
    ∃ d ds, w.whole = d :: ds ∧ isDigit (byte d) ∧
      Reads (moreDigits (byte d)) (ascii ds ++ after) (ascii ds) after ∧
      collect largestNatural ((byte d).toNat - 48) (ascii ds) =
        (Nat.ofDigitChars 10 w.whole 0, []) := by
  have hdigit := w.isDigit_whole
  have hzero := w.zero_alone
  obtain ⟨d, ds, hwhole⟩ := List.exists_cons_of_ne_nil w.whole_ne_nil
  rw [hwhole] at hdigit hzero hfits ⊢
  have hd := hdigit d List.mem_cons_self
  have hmore : ∀ c ∈ ds, c.isDigit := fun c hc => hdigit c (List.mem_cons_of_mem _ hc)
  have hfirst : Nat.ofDigitChars 10 (d :: ds) 0 = Nat.ofDigitChars 10 ds ((byte d).toNat - 48) := by
    rw [Nat.ofDigitChars_cons, toNat_byte (lt_of_isDigit hd), Nat.mul_zero, Nat.zero_add]
    rfl
  have halone : d = '0' → ds = [] := fun h => by
    have := hzero (by rw [h, List.head?_cons])
    exact (List.cons.inj this).2
  rw [hfirst] at hfits ⊢
  exact ⟨d, ds, rfl, isDigit_byte hd, reads_moreDigits halone hmore hafter hd,
    collect_ascii hmore hfits⟩

/-- **A written number is read as a double** by its digits and its power of
ten, unless it is a whole number that is written out. -/
theorem reads_numeric {w : Written} (positive : Bool) {x : Binary64} (plusSign : Bool)
    (hfloat : w.places.isSome ∨ w.power.isSome) (hdigits : w.denotes.digits ≤ largestNatural)
    (hpower : ∀ p ∈ w.power, p.natAbs ≤ largestExponent)
    (h : scale (Binary64.ofNat w.denotes.digits) w.denotes.exponent = some x)
    {rest : List UInt8} (hrest : Ends rest) :
    Reads (numeric positive) (ascii (w.text plusSign) ++ rest) (.float (signed positive x))
      rest := by
  have hdenotes : w.denotes.digits =
      Nat.ofDigitChars 10 (w.places.getD []) (Nat.ofDigitChars 10 w.whole 0) :=
    Nat.ofDigitChars_append 0
  rw [hdenotes] at hdigits h
  obtain ⟨d, ds, hwhole, hd, hreads, hcollect⟩ := exists_digits w
    (le_trans (le_ofDigitChars _ _) hdigits) (isDigit_fraction_append w plusSign hrest)
  rw [Written.text, ascii_append, ascii_append, List.append_assoc, List.append_assoc]
  generalize Nat.ofDigitChars 10 w.whole 0 = n at *
  rw [hwhole, ascii_cons, List.cons_append]
  unfold numeric
  refine (reads_next _ _).bind ?_
  simp only [hd, Bool.not_true, Bool.false_eq_true, if_false]
  refine hreads.bind ?_
  simp only [hcollect]
  refine (reads_peek _).bind ?_
  simp only [List.length_nil, Nat.cast_zero]
  cases hplaces : w.places with
  | some fs =>
    have hfraction : w.fraction = '.' :: fs := by rw [Written.fraction, hplaces, Option.elim_some]
    have hexponent : w.denotes.exponent = w.power.getD 0 - fs.length := by
      rw [Written.denotes, hplaces, Option.getD_some]
    rw [hplaces, Option.getD_some] at hdigits h
    rw [hexponent] at h
    rw [hfraction, ascii_cons, List.cons_append, List.head?_cons, if_pos rfl]
    exact (reads_fraction plusSign hplaces hdigits hpower h hrest).map _
  | none =>
    have hfraction : w.fraction = [] := by rw [Written.fraction, hplaces, Option.elim_none]
    obtain ⟨p, hp⟩ := Option.isSome_iff_exists.1 (hfloat.resolve_left (by simp [hplaces]))
    have hexponent : w.denotes.exponent = 0 + p := by simp [Written.denotes, hplaces, hp]
    rw [hplaces, Option.getD_none, Nat.ofDigitChars_nil, hexponent] at h
    rw [hfraction, ascii_nil, List.nil_append, Written.exponent, hp, Option.elim_some, ascii_cons,
      ascii_append, List.cons_append, List.append_assoc, List.head?_cons, if_neg (by decide),
      if_pos (by decide)]
    exact (reads_exponent plusSign (hpower p hp) h hrest).map _

/-- **A natural number that fits is read as itself.** -/
theorem reads_numeric_natural {n : Nat} (hn : n ≤ largestNatural) {rest : List UInt8}
    (hrest : Ends rest) :
    Reads (numeric true) (ascii (natural n) ++ rest) (.natural n) rest := by
  have hvalue : Nat.ofDigitChars 10 (Nat.toDigits 10 n) 0 = n := Nat.ofDigitChars_ten_toDigits
  obtain ⟨d, ds, hwhole, hd, hreads, hcollect⟩ := exists_digits (Written.ofNatural n)
    (le_of_eq_of_le hvalue hn) hrest.not_isDigit
  have hdigits : natural n = d :: ds := hwhole
  rw [hdigits, ascii_cons, List.cons_append]
  unfold numeric
  refine (reads_next _ _).bind ?_
  simp only [hd, Bool.not_true, Bool.false_eq_true, if_false]
  refine hreads.bind ?_
  simp only [hcollect]
  refine (reads_peek _).bind ?_
  rw [if_neg hrest.head?_ne.1, hrest.head?_ne.2, if_neg Bool.false_ne_true, List.isEmpty_nil,
    if_pos rfl]
  have hnatural : wholeNumber true (Nat.ofDigitChars 10 (Written.ofNatural n).whole 0) =
      .natural n := congrArg Numeric.natural hvalue
  rw [hnatural]
  exact .pure _ _

/-! ## Printed doubles -/

/-- **The value of the shortest decimal of a finite double** other than zero
is between two powers of ten. -/
theorem value_shortest_between {m : Nat} (hpos : 0 < m) (hm : m < Binary64.infiniteMagnitude) :
    (10 : ℚ) ^ (-324 : ℤ) < (Decimal.shortest .even m).value ∧
      (Decimal.shortest .even m).value < (10 : ℚ) ^ (309 : ℤ) := by
  have hback := Decimal.magnitude_shortest .even hm
  generalize Decimal.shortest .even m = d at *
  have hone : ∀ e, (⟨1, e⟩ : Decimal).value = (10 : ℚ) ^ e := fun e => by simp [Decimal.value]
  constructor
  · by_contra h
    have hlow : (⟨1, -324⟩ : Decimal).magnitude = 0 := by decide +kernel
    have := Decimal.magnitude_mono ((not_lt.1 h).trans_eq (hone _).symm)
    omega
  · by_contra h
    have hhigh : (⟨1, 309⟩ : Decimal).magnitude = Binary64.infiniteMagnitude := by decide +kernel
    have := Decimal.magnitude_mono ((hone _).trans_le (not_lt.1 h))
    omega

/-- So its power of ten is small. -/
theorem exponent_shortest_between {m : Nat} (hm : m < Binary64.infiniteMagnitude)
    (hdigits : (Decimal.shortest .even m).digits ≠ 0) :
    -341 < (Decimal.shortest .even m).exponent ∧ (Decimal.shortest .even m).exponent < 309 := by
  have hpos : 0 < m := by
    by_contra h
    obtain rfl : m = 0 := by omega
    exact hdigits rfl
  obtain ⟨hlow, hhigh⟩ := value_shortest_between hpos hm
  have hmost := Decimal.digits_shortest_le .even hm
  generalize Decimal.shortest .even m = d at *
  rw [Decimal.value] at hlow hhigh
  have hgrid : (0 : ℚ) < 10 ^ d.exponent := zpow_pos (by norm_num) _
  constructor
  · have hle : (10 : ℚ) ^ (-324 : ℤ) < 10 ^ (17 + d.exponent) := by
      refine hlow.trans_le ?_
      rw [zpow_add₀ (by norm_num)]
      exact mul_le_mul_of_nonneg_right (by exact_mod_cast hmost) hgrid.le
    have := (zpow_lt_zpow_iff_right₀ (by norm_num)).1 hle
    omega
  · have hle : (10 : ℚ) ^ d.exponent < 10 ^ (309 : ℤ) := by
      refine lt_of_le_of_lt ?_ hhigh
      refine le_mul_of_one_le_left hgrid.le ?_
      exact_mod_cast Nat.one_le_iff_ne_zero.2 hdigits
    exact (zpow_lt_zpow_iff_right₀ (by norm_num)).1 hle

/-- A written number with at most 17 digits in front of its `.0` fits. -/
theorem digits_denotes_lt {w : Written} {k : Nat} (h : w.digits.length ≤ k) :
    w.denotes.digits < 10 ^ k :=
  (ofDigitChars_lt w.isDigit_digits).trans_le (Nat.pow_le_pow_right (by decide) h)

/-- **What is printed of a finite double**, after its sign: a written number
with a point or a power of ten, which denotes a decimal that goes to the
double's magnitude, and which can be read. -/
theorem exists_printed {m : Nat} (hm : m < Binary64.infiniteMagnitude) :
    ∃ w : Written, layout.writeDecimal (Decimal.shortest .even m) = w.text true ∧
      (w.places.isSome ∨ w.power.isSome) ∧ w.denotes.digits ≤ largestNatural ∧
      (∀ p ∈ w.power, p.natAbs ≤ largestExponent) ∧ w.denotes.magnitude = m ∧
      ∃ x, scale (Binary64.ofNat w.denotes.digits) w.denotes.exponent = some x := by
  have hscale := exists_scale_shortest hm
  have hback := Decimal.magnitude_shortest .even hm
  have hmost := Decimal.digits_shortest_le .even hm
  have hzero := Decimal.exponent_shortest_le .even hm
  have hexponent := exponent_shortest_between hm
  generalize Decimal.shortest .even m = d at *
  have hfits : d.digits ≤ largestNatural := hmost.trans (by decide)
  rw [Layout.writeDecimal]
  dsimp only [layout]
  split
  · rename_i hplace
    obtain ⟨w, hpower, htext, hvalue, hform⟩ := Layout.exists_spread true hzero
    refine ⟨w, (htext true).symm, ?_⟩
    have hmagnitude : w.denotes.magnitude = m := (Decimal.magnitude_congr hvalue).trans hback
    rcases hform with ⟨hplaces, hdenotes⟩ | ⟨hplaces, hlength⟩
    · rw [hdenotes]
      exact ⟨.inl hplaces, hfits, by simp [hpower], hback, hscale⟩
    · rw [if_pos rfl] at hplaces
      refine ⟨.inl (by rw [hplaces]; rfl), ?_, by simp [hpower], hmagnitude, ?_⟩
      · have hshort : w.digits.length ≤ 17 := by
          rw [Written.digits, hplaces, Option.getD_some, List.length_append, List.length_singleton]
          rcases hplace with hdigits | ⟨-, hhigh⟩
          · have hexp := hzero hdigits
            rw [hdigits, Nat.toDigits_zero, List.length_singleton] at hlength
            omega
          · omega
        exact (digits_denotes_lt hshort).le.trans (by decide)
      · refine exists_scale_of_neg _ ?_
        simp [Written.denotes, hpower, hplaces]
  · rename_i hplace
    obtain ⟨w, hpower, htext, hdenotes⟩ := Layout.exists_withExponent d
    refine ⟨w, (htext true).symm, .inr (by rw [hpower]; rfl), ?_⟩
    rw [hdenotes]
    refine ⟨hfits, fun p hp => ?_, hback, hscale⟩
    obtain rfl := Option.some.inj (hpower.symm.trans hp)
    have hlength : (Nat.toDigits 10 d.digits).length ≤ 18 :=
      (Nat.length_toDigits_le_iff (by decide) (by decide)).2 (hmost.trans_lt (by decide))
    have hlimit : 400 ≤ largestExponent := by decide
    have hbetween := hexponent fun h => hplace (.inl h)
    omega

/-! ## Doubles, read back -/

/-- **What comes back of a double**: the printed digits scaled by the printed
power of ten, under the sign. What is not finite is null, which is no
double. -/
def reread (v : Binary64) : Except Fault Binary64 :=
  if v.isFinite then
    let d := Decimal.ofText (number v)
    match scale (Binary64.ofNat d.digits) d.exponent with
    | some x => .ok (signed (!v.negative) x)
    | none => .error .numberOutOfRange
  else .error (.wrongType .null .double)

/-- A sign in front does not count. -/
theorem ofText_sign (negative : Bool) (s : List Char) :
    Decimal.ofText ((if negative then ['-'] else []) ++ s) = Decimal.ofText s := by
  cases negative <;> simp [Decimal.ofText]

/-- **What is printed of a finite double.** -/
theorem exists_number {v : Binary64} (hv : v.isFinite) :
    ∃ w : Written, number v = (if v.negative then ['-'] else []) ++ w.text true ∧
      (w.places.isSome ∨ w.power.isSome) ∧ w.denotes.digits ≤ largestNatural ∧
      (∀ p ∈ w.power, p.natAbs ≤ largestExponent) ∧ w.denotes.magnitude = v.magnitude ∧
      Decimal.ofText (number v) = w.denotes ∧
      ∃ x, scale (Binary64.ofNat w.denotes.digits) w.denotes.exponent = some x := by
  obtain ⟨w, hprinted, hfloat, hdigits, hpower, hmagnitude, hscale⟩ :=
    exists_printed (of_decide_eq_true hv)
  have hnumber : number v = (if v.negative then ['-'] else []) ++ w.text true := by
    obtain ⟨hnan, hinf⟩ := Binary64.isFinite_iff.1 hv
    rw [number, if_pos hv, Layout.write, hnan, hinf, ← hprinted]
    rfl
  exact ⟨w, hnumber, hfloat, hdigits, hpower, hmagnitude,
    by rw [hnumber, ofText_sign, Written.ofText_text], hscale⟩

/-- Every finite double comes back, if not always the same. -/
theorem exists_reread {v : Binary64} (hv : v.isFinite) : ∃ w, reread v = .ok w := by
  obtain ⟨w, -, -, -, -, -, htext, x, hscale⟩ := exists_number hv
  unfold reread
  rw [if_pos hv]
  simp only [htext, hscale]
  exact ⟨_, rfl⟩

/-- **The same comes back** where digits and power of ten are doubles
exactly. -/
theorem reread_of_exact {v : Binary64} (hv : v.isFinite)
    (hdigits : (Decimal.ofText (number v)).digits ≤ 2 ^ 53)
    (hpower : (Decimal.ofText (number v)).exponent.natAbs ≤ 22) : reread v = .ok v := by
  obtain ⟨w, -, -, -, -, hmagnitude, htext, -⟩ := exists_number hv
  have hm : v.magnitude < Binary64.infiniteMagnitude := of_decide_eq_true hv
  rw [htext] at hdigits hpower
  have hscale := scale_of_exact hdigits hpower (hmagnitude ▸ hm)
  unfold reread
  rw [if_pos hv]
  simp only [htext, hscale, hmagnitude]
  obtain ⟨negative, m, hbound⟩ := v
  have hle : m ≤ Binary64.infiniteMagnitude := hm.le
  cases negative <;> simp [signed, Binary64.negate, Binary64.ofMagnitude, Nat.min_eq_right hle]

/-- Written numbers are ASCII. -/
theorem lt_of_mem_text (w : Written) (plusSign : Bool) : ∀ c ∈ w.text plusSign, c.toNat < 0x80 := by
  intro c hc
  have hmarks : ∀ c ∈ ['.', 'e', '+', '-'], c.toNat < 0x80 := by simp
  exact (Written.mem_text_cases hc).elim lt_of_isDigit (hmarks c)

/-- **A value that is a number** is read after its sign. -/
theorem gives_numericValue {wanted : Wanted} {use : Numeric → Reader β} (negative : Bool)
    {w : Written} {plusSign : Bool} {n : Numeric} {o : Except Fault β} {rest : List UInt8}
    (hread : Reads (numeric !negative) (ascii (w.text plusSign) ++ rest) n rest)
    (huse : Gives (use n) rest o rest) :
    Gives (numericValue wanted use)
      (Utf8.encode ((if negative then ['-'] else []) ++ w.text plusSign) ++ rest) o rest := by
  have hascii := encode_eq_ascii (lt_of_mem_text w plusSign)
  unfold numericValue
  cases negative with
  | true =>
    rw [if_pos rfl, List.singleton_append, encode_cons (by decide), List.cons_append, hascii]
    refine gives_valueBy (by decide) ?_
    rw [if_pos rfl, Option.getD_some]
    exact (reads_skip _ _).gives_bind (hread.gives_bind huse)
  | false =>
    obtain ⟨d, ds, hwhole⟩ := List.exists_cons_of_ne_nil w.whole_ne_nil
    have hd : isDigit (byte d) := isDigit_byte (w.isDigit_whole d (hwhole ▸ List.mem_cons_self))
    have hfirst : ∃ bs, ascii (w.text plusSign) ++ rest = byte d :: bs :=
      ⟨_, by rw [Written.text, hwhole]; rfl⟩
    have hblank : isBlank (byte d) = false := isBlank_of_isDigit hd
    have hminus : byte d ≠ byte '-' := fun h => by
      rw [h] at hd
      exact absurd hd (by decide)
    rw [if_neg Bool.false_ne_true, List.nil_append, hascii]
    obtain ⟨bs, hbs⟩ := hfirst
    rw [hbs] at hread ⊢
    refine gives_valueBy hblank ?_
    rw [if_neg hminus, if_pos hd, Option.getD_some]
    exact hread.gives_bind huse

/-- Null is no double. -/
theorem refuses_double_null (rest : List UInt8) :
    Refuses double (ascii ['n', 'u', 'l', 'l'] ++ rest) (.wrongType .null .double) := by
  have hvalue : Gives double (byte 'n' :: (ascii ['u', 'l', 'l'] ++ rest))
      (.error (.wrongType .null .double)) rest := by
    unfold double numericValue
    refine gives_valueBy (by decide) ?_
    rw [if_neg (by decide), if_neg (by decide), Option.getD_none]
    unfold unwanted
    refine (reads_peek _).refuses_bind ?_
    dsimp only [List.head?_cons]
    rw [if_pos rfl]
    refine (reads_skip _ _).refuses_bind ?_
    exact (reads_word _ rest).refuses_bind (.failUnplaced _ _)
  exact hvalue

/-- **A printed double is answered** by what comes back of it. -/
theorem answers_double (v : Binary64) : Answers double (number v) (reread v) := by
  intro rest hrest
  by_cases hv : v.isFinite
  · obtain ⟨w, hnumber, hfloat, hdigits, hpower, -, htext, x, hscale⟩ := exists_number hv
    have hreread : reread v = .ok (signed (!v.negative) x) := by
      unfold reread
      rw [if_pos hv]
      simp only [htext, hscale]
    rw [hreread, hnumber]
    unfold double
    have hread := reads_numeric (!v.negative) true hfloat hdigits hpower hscale hrest
    exact gives_numericValue _ hread (Reads.pure _ _)
  · rw [number, reread, if_neg hv, if_neg hv, encode_eq_ascii (by simp)]
    exact refuses_double_null rest

/-- **A printed natural number that fits is itself.** -/
theorem answers_naturalValue {n : Nat} (hn : n ≤ largestNatural) :
    Answers naturalValue (natural n) (.ok n) := by
  intro rest hrest
  have htext : natural n = (Written.ofNatural n).text true := by
    simp [natural, Written.text, Written.ofNatural, Written.fraction, Written.exponent]
  have hread := reads_numeric_natural hn hrest
  rw [htext] at hread ⊢
  unfold naturalValue
  exact gives_numericValue false hread (Reads.pure n rest)

end Json

end Abacus
