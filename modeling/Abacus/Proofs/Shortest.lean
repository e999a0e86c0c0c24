import Abacus.Decimal.Shortest
import Abacus.Proofs.Rounding
import Mathlib.Algebra.Order.Field.Basic
import Mathlib.Algebra.Order.Ring.Cast
import Mathlib.Data.Rat.Cast.Order
import Mathlib.Tactic.NormNum

/-!
# Shortest decimals — they read back, and need 17 digits at most

A decimal has a value, and the magnitude it goes to depends on nothing else
(`Decimal.magnitude_congr`), so zeros at the end of its digits are nothing
(`value_trim`). The guess at the leading place is never off by more than
the search allows for (`leadingPlace_spec`): the logarithm of two is held
between two fractions. On the grid of 17 digits the nearer neighbour is
closer to the value than half the gap to the next magnitude
(`isSome_onGrid_seventeen`), so the search always ends on a grid: what it
finds reads back (`magnitude_shortest`), and its digits never pass
`10 ^ 17` (`digits_shortest_le`).
-/

namespace Abacus

namespace Decimal

open Binary64

/-! ## Values -/

/-- The value of a decimal. -/
def value (d : Decimal) : ℚ := d.digits * 10 ^ d.exponent

/-- The value of a finite magnitude. -/
def valueOf (m : Nat) : ℚ := units m / unitsPerOne

/-- A power of ten as the quotient that the search computes with. -/
theorem ten_zpow_eq_div (e : Int) :
    (10 : ℚ) ^ e = (Nat.pow 10 e.toNat : Nat) / (Nat.pow 10 (-e).toNat : Nat) := by
  rw [Nat.pow_eq, Nat.pow_eq]
  push_cast
  obtain ⟨n, rfl | rfl⟩ := Int.eq_nat_or_neg e <;> simp

/-- A decimal is rounded as the quotient it is. -/
theorem value_eq_div (d : Decimal) :
    d.value = ((d.digits * Nat.pow 10 d.exponent.toNat : Nat) : ℚ) /
      (Nat.pow 10 (-d.exponent).toNat : Nat) := by
  rw [value, ten_zpow_eq_div, ← mul_div_assoc, Nat.cast_mul]

theorem ten_pow_pos (n : Nat) : 0 < Nat.pow 10 n := Nat.pow_pos (by decide)

/-- **A quotient goes where the decimal of its value goes.** -/
theorem roundRatio_eq_magnitude {n k : Nat} {d : Decimal} (hk : 0 < k)
    (h : (n : ℚ) / k = d.value) : roundRatio n k = d.magnitude := by
  have hd := ten_pow_pos (-d.exponent).toNat
  rw [value_eq_div, div_eq_div_iff (by exact_mod_cast hk.ne') (by exact_mod_cast hd.ne')] at h
  exact roundRatio_congr hk hd (by exact_mod_cast h)

/-- **Larger decimals go no lower.** -/
theorem magnitude_mono {a b : Decimal} (h : a.value ≤ b.value) : a.magnitude ≤ b.magnitude := by
  have ha := ten_pow_pos (-a.exponent).toNat
  have hb := ten_pow_pos (-b.exponent).toNat
  rw [value_eq_div, value_eq_div,
    div_le_div_iff₀ (by exact_mod_cast ha) (by exact_mod_cast hb)] at h
  exact roundRatio_mono ha hb (by exact_mod_cast h)

theorem magnitude_congr {a b : Decimal} (h : a.value = b.value) : a.magnitude = b.magnitude :=
  Nat.le_antisymm (magnitude_mono h.le) (magnitude_mono h.ge)

theorem unitsPerOne_cast_pos : (0 : ℚ) < unitsPerOne := by exact_mod_cast unitsPerOne_pos

/-- **The value of a finite magnitude goes to it.** -/
theorem magnitude_of_value {d : Decimal} {m : Nat} (hm : m < infiniteMagnitude)
    (h : d.value = valueOf m) : d.magnitude = m := by
  rw [← roundRatio_eq_magnitude unitsPerOne_pos h.symm]
  exact roundRatio_of_eq_units unitsPerOne_pos hm rfl

/-- **What is near it goes to it** as well. -/
theorem magnitude_of_near {d : Decimal} {m : Nat} (hpos : 0 < m) (hm : m < infiniteMagnitude)
    (h : |d.value - valueOf m| < valueOf m / 2 ^ 54) : d.magnitude = m := by
  have hk := ten_pow_pos (-d.exponent).toNat
  have hkq : (0 : ℚ) < (Nat.pow 10 (-d.exponent).toNat : Nat) := by exact_mod_cast hk
  have hone := unitsPerOne_cast_pos
  obtain ⟨hlow, hhigh⟩ := abs_lt.1 h
  rw [value_eq_div, valueOf] at hlow hhigh
  unfold magnitude
  generalize d.digits * Nat.pow 10 d.exponent.toNat = n at *
  generalize Nat.pow 10 (-d.exponent).toNat = k at *
  have hn : (n : ℚ) / k * k = n := div_mul_cancel₀ _ hkq.ne'
  have hu : (units m : ℚ) / unitsPerOne * unitsPerOne = units m := div_mul_cancel₀ _ hone.ne'
  have hscale : (0 : ℚ) < k * unitsPerOne := mul_pos hkq hone
  have hnq : (n * unitsPerOne : ℚ) = n / k * (k * unitsPerOne) := by rw [← mul_assoc, hn]
  have huq : (units m * k : ℚ) = units m / unitsPerOne * (k * unitsPerOne) := by
    rw [mul_left_comm, hu, mul_comm]
  refine roundRatio_of_near hk hpos hm ?_ ?_ <;> rw [← Nat.cast_lt (α := ℚ)] <;> push_cast
  · rw [hnq, huq, ← mul_assoc _ (_ / _) _, ← mul_assoc _ (_ / _) _]
    refine mul_lt_mul_of_pos_right ?_ hscale
    linarith
  · rw [hnq, huq, ← mul_assoc _ (_ / _) _, ← mul_assoc _ (_ / _) _]
    refine mul_lt_mul_of_pos_right ?_ hscale
    linarith

theorem value_trim (d : Decimal) : d.trim.value = d.value := by
  induction d using trim.induct with
  | case1 d h ih =>
    rw [trim, dif_pos h, ih, value, value, zpow_add_one₀ (by norm_num)]
    have hdigits : (d.digits : ℚ) = 10 * (d.digits / 10 : Nat) := by
      exact_mod_cast (Nat.mul_div_cancel' (Nat.dvd_of_mod_eq_zero h.2)).symm
    rw [hdigits]
    ring
  | case2 d h => rw [trim, dif_neg h]

theorem digits_trim_le (d : Decimal) : d.trim.digits ≤ d.digits := by
  induction d using trim.induct with
  | case1 d h ih =>
    rw [trim, dif_pos h]
    exact ih.trans (Nat.div_le_self _ _)
  | case2 d h => rw [trim, dif_neg h]

theorem magnitude_trim (d : Decimal) : d.trim.magnitude = d.magnitude :=
  magnitude_congr (value_trim d)

/-! ## The grids -/

theorem closer_eq_or (tie : Tie) (u lo : Nat) (e : Int) :
    closer tie u lo e = lo ∨ closer tie u lo e = lo + 1 := by
  unfold closer
  split
  · exact .inl rfl
  · exact .inr rfl
  · exact .inr rfl
  · omega

/-- **What is found on a grid reads back**, and is one of the value's two
neighbours. -/
theorem onGrid_eq_some {tie : Tie} {m : Nat} {e : Int} {d : Decimal}
    (h : onGrid tie m e = some d) : d.magnitude = m ∧ d.digits ≤ below (units m) e + 1 := by
  unfold onGrid at h
  -- only which of the two neighbours reads back matters
  generalize below (units m) e = lo at *
  dsimp only at h
  split at h
  · rename_i hlo
    split at h
    · rename_i hhi
      obtain rfl := Option.some.inj h
      rcases closer_eq_or tie (units m) lo e with hc | hc <;> rw [hc]
      · exact ⟨hlo, Nat.le_succ _⟩
      · exact ⟨hhi, Nat.le_refl _⟩
    · obtain rfl := Option.some.inj h
      exact ⟨hlo, Nat.le_succ _⟩
  · split at h
    · rename_i hhi
      obtain rfl := Option.some.inj h
      exact ⟨hhi, Nat.le_refl _⟩
    · cases h

/-- **A grid with a neighbour that reads back has a hit.** -/
theorem isSome_onGrid {tie : Tie} {m : Nat} {e : Int}
    (h : (⟨below (units m) e, e⟩ : Decimal).magnitude = m ∨
      (⟨below (units m) e + 1, e⟩ : Decimal).magnitude = m) : (onGrid tie m e).isSome := by
  unfold onGrid
  generalize below (units m) e = lo at *
  dsimp only
  split
  · split <;> rfl
  · rw [if_pos (h.resolve_left ‹_›)]
    rfl

/-- A value lies between the neighbours of its grid. -/
theorem below_spec (m : Nat) (e : Int) :
    below (units m) e * 10 ^ e ≤ valueOf m ∧
      valueOf m < (below (units m) e + 1) * (10 : ℚ) ^ e := by
  have hdown : (0 : ℚ) < (Nat.pow 10 (-e).toNat : Nat) := by exact_mod_cast ten_pow_pos _
  have hone := unitsPerOne_cast_pos
  have hgrid : 0 < unitsPerOne * Nat.pow 10 e.toNat := Nat.mul_pos unitsPerOne_pos (ten_pow_pos _)
  rw [ten_zpow_eq_div, valueOf, ← mul_div_assoc, ← mul_div_assoc, div_le_div_iff₀ hdown hone,
    div_lt_div_iff₀ hone hdown]
  unfold below
  generalize Nat.pow 10 e.toNat = a at *
  generalize Nat.pow 10 (-e).toNat = b at *
  have hle := Nat.div_mul_le_self (units m * b) (unitsPerOne * a)
  have hlt := (Nat.div_lt_iff_lt_mul hgrid).1 (Nat.lt_succ_self (units m * b / (unitsPerOne * a)))
  generalize units m * b / (unitsPerOne * a) = lo at *
  constructor
  · calc (lo * a * unitsPerOne : ℚ) = (lo * (unitsPerOne * a) : Nat) := by push_cast; ring
      _ ≤ (units m * b : Nat) := by exact_mod_cast hle
      _ = units m * b := by push_cast; rfl
  · calc (units m * b : ℚ) = (units m * b : Nat) := by push_cast; rfl
      _ < ((lo + 1) * (unitsPerOne * a) : Nat) := by exact_mod_cast hlt
      _ = (lo + 1) * a * unitsPerOne := by push_cast; ring

/-! ## The leading place -/

theorem isBelow_iff (m : Nat) (k : Int) : isBelow (units m) k ↔ valueOf m < (10 : ℚ) ^ k := by
  have hdown : (0 : ℚ) < (Nat.pow 10 (-k).toNat : Nat) := by exact_mod_cast ten_pow_pos _
  rw [isBelow, decide_eq_true_iff, ten_zpow_eq_div, valueOf,
    div_lt_div_iff₀ unitsPerOne_cast_pos hdown, mul_comm (Nat.cast (Nat.pow 10 k.toNat) : ℚ),
    ← Nat.cast_mul, ← Nat.cast_mul, Nat.cast_lt]

/-- Powers of two bases compare as their exponents do, through a comparison
of two fixed powers. -/
theorem zpow_le_zpow_of_pow {a b : ℚ} {p q : ℕ} {x y : ℤ} (ha : 0 < a) (hb : 1 ≤ b) (hp : p ≠ 0)
    (hbase : 0 ≤ x ∧ a ^ p ≤ b ^ q ∨ x ≤ 0 ∧ b ^ q ≤ a ^ p) (hxy : q * x ≤ p * y) :
    a ^ x ≤ b ^ y := by
  have hb' : (0 : ℚ) < b := one_pos.trans_le hb
  have hpowers : (a ^ p) ^ x ≤ (b ^ q) ^ x := by
    rcases hbase with ⟨hx, hle⟩ | ⟨hx, hle⟩
    · exact zpow_le_zpow_left₀ hx (pow_pos ha p).le hle
    · obtain ⟨n, rfl⟩ := Int.exists_eq_neg_ofNat hx
      rw [zpow_neg, zpow_neg, zpow_natCast, zpow_natCast]
      have hle' := pow_le_pow_left₀ (pow_pos hb' q).le hle n
      exact inv_anti₀ (pow_pos (pow_pos hb' q) n) hle'
  refine (pow_le_pow_iff_left₀ (zpow_pos ha x).le (zpow_pos hb' y).le hp).1 ?_
  calc (a ^ x) ^ p = (a ^ p) ^ x := by
        rw [← zpow_natCast, ← zpow_natCast, ← zpow_mul, ← zpow_mul, mul_comm]
    _ ≤ (b ^ q) ^ x := hpowers
    _ = b ^ (q * x) := by rw [← zpow_natCast, ← zpow_mul]
    _ ≤ b ^ (p * y) := zpow_le_zpow_right₀ hb hxy
    _ = (b ^ y) ^ p := by rw [← zpow_natCast, ← zpow_mul, mul_comm]

/-- The logarithm of two lies between `59 / 196` and `28 / 93`. -/
theorem ten_zpow_le_two_zpow {x y : ℤ} (h : 0 ≤ x ∧ 196 * x ≤ 59 * y ∨ x ≤ 0 ∧ 93 * x ≤ 28 * y) :
    (10 : ℚ) ^ x ≤ 2 ^ y := by
  rcases h with ⟨hx, hxy⟩ | ⟨hx, hxy⟩
  · exact zpow_le_zpow_of_pow (p := 59) (q := 196) (by norm_num) (by norm_num) (by norm_num)
      (.inl ⟨hx, by norm_num⟩) (by exact_mod_cast hxy)
  · exact zpow_le_zpow_of_pow (p := 28) (q := 93) (by norm_num) (by norm_num) (by norm_num)
      (.inr ⟨hx, by norm_num⟩) (by exact_mod_cast hxy)

theorem two_zpow_le_ten_zpow {x y : ℤ} (h : 0 ≤ x ∧ 28 * x ≤ 93 * y ∨ x ≤ 0 ∧ 59 * x ≤ 196 * y) :
    (2 : ℚ) ^ x ≤ 10 ^ y := by
  rcases h with ⟨hx, hxy⟩ | ⟨hx, hxy⟩
  · exact zpow_le_zpow_of_pow (p := 93) (q := 28) (by norm_num) (by norm_num) (by norm_num)
      (.inl ⟨hx, by norm_num⟩) (by exact_mod_cast hxy)
  · exact zpow_le_zpow_of_pow (p := 196) (q := 59) (by norm_num) (by norm_num) (by norm_num)
      (.inr ⟨hx, by norm_num⟩) (by exact_mod_cast hxy)

theorem unitsPerOne_cast : (unitsPerOne : ℚ) = 2 ^ (1074 : ℤ) := by
  unfold unitsPerOne
  generalize hk : 1074 = k
  rw [show (1074 : ℤ) = ((1074 : ℕ) : ℤ) from rfl, hk, Nat.pow_eq, zpow_natCast]
  push_cast
  rfl

/-- The binary places of a value. -/
theorem valueOf_between_two_zpow {m : Nat} (hpos : 0 < m) :
    (2 : ℚ) ^ ((units m).log2 - 1074 : ℤ) ≤ valueOf m ∧
      valueOf m < 2 ^ ((units m).log2 - 1074 + 1 : ℤ) := by
  have hunits : units m ≠ 0 := (units_zero ▸ units_strictMono hpos).ne'
  have hone := unitsPerOne_cast_pos
  have hsub : ∀ k : ℕ, (2 : ℚ) ^ (k - 1074 : ℤ) = (2 ^ k : ℕ) / unitsPerOne := fun k => by
    rw [unitsPerOne_cast, zpow_sub₀ (by norm_num), zpow_natCast, Nat.cast_pow, Nat.cast_ofNat]
  have hnext : ((units m).log2 - 1074 + 1 : ℤ) = ((units m).log2 + 1 : ℕ) - 1074 := by omega
  rw [hnext, hsub, hsub, valueOf]
  exact ⟨(div_le_div_iff_of_pos_right hone).2 (by exact_mod_cast Nat.log2_self_le hunits),
    (div_lt_div_iff_of_pos_right hone).2 (by exact_mod_cast Nat.lt_log2_self)⟩

theorem log2_units_lt {m : Nat} (hpos : 0 < m) (hm : m < infiniteMagnitude) :
    (units m).log2 < 2098 := by
  have hunits : units m ≠ 0 := (units_zero ▸ units_strictMono hpos).ne'
  have hinfinite : infiniteMagnitude = 2046 * 2 ^ 52 + 2 ^ 52 := by decide +kernel
  rw [Nat.log2_lt hunits]
  calc units m < units infiniteMagnitude := units_strictMono hm
    _ = 2 ^ 52 * 2 ^ 2046 := by
      rw [hinfinite]
      exact units_parts (by norm_num) (.inr (Nat.le_refl _))
    _ = 2 ^ 2098 := by rw [← pow_add]

/-- **The leading place is right**: the value of a finite magnitude lies
between the two powers of ten that the place names. -/
theorem leadingPlace_spec {m : Nat} (hpos : 0 < m) (hm : m < infiniteMagnitude) :
    (10 : ℚ) ^ (leadingPlace (units m) - 1) ≤ valueOf m ∧
      valueOf m < 10 ^ leadingPlace (units m) := by
  obtain ⟨hlow, hhigh⟩ := valueOf_between_two_zpow hpos
  have hlog := log2_units_lt hpos hm
  unfold leadingPlace
  dsimp only
  generalize hg : (((units m).log2 : ℤ) - 1074) * 30103 / 100000 = guess
  split
  · rename_i h
    refine ⟨le_trans (ten_zpow_le_two_zpow ?_) hlow, (isBelow_iff m _).1 h⟩
    omega
  · rename_i h
    rw [isBelow_iff, not_lt] at h
    split
    · rename_i h'
      rw [add_sub_cancel_right]
      exact ⟨h, (isBelow_iff m _).1 h'⟩
    · rename_i h'
      rw [isBelow_iff, not_lt] at h'
      rw [show guess + 2 - 1 = guess + 1 by omega]
      refine ⟨h', hhigh.trans_le (two_zpow_le_ten_zpow ?_)⟩
      omega

/-! ## The search -/

/-- **The grid of 17 digits always has a hit**: the nearer neighbour is off by
half of the last digit at most, and that is less than the gap to the next
magnitude allows. -/
theorem isSome_onGrid_seventeen (tie : Tie) {m : Nat} (hpos : 0 < m) (hm : m < infiniteMagnitude) :
    (onGrid tie m (leadingPlace (units m) - 17)).isSome := by
  obtain ⟨hplace, -⟩ := leadingPlace_spec hpos hm
  have hdigits : leadingPlace (units m) - 1 = leadingPlace (units m) - 17 + 16 := by omega
  rw [hdigits, zpow_add₀ (by norm_num)] at hplace
  generalize leadingPlace (units m) - 17 = e at *
  obtain ⟨hlow, hhigh⟩ := below_spec m e
  refine isSome_onGrid ?_
  generalize below (units m) e = lo at *
  have hgrid : (0 : ℚ) < 10 ^ e := zpow_pos (by norm_num) e
  rcases le_total (valueOf m - lo * 10 ^ e) (10 ^ e / 2) with hnear | hnear
  · refine .inl (magnitude_of_near hpos hm ?_)
    rw [value, abs_lt]
    constructor <;> norm_num at hplace ⊢ <;> linarith
  · refine .inr (magnitude_of_near hpos hm ?_)
    rw [value, abs_lt]
    push_cast
    constructor <;> norm_num at hplace ⊢ <;> linarith

/-- **What the search finds**, before its zeros are moved. -/
theorem exists_shortest_eq_trim (tie : Tie) {m : Nat} (hpos : 0 < m) (hm : m < infiniteMagnitude) :
    ∃ d : Decimal, shortest tie m = d.trim ∧ d.magnitude = m ∧ d.digits ≤ 10 ^ 17 := by
  have hlast := isSome_onGrid_seventeen tie hpos hm
  obtain ⟨-, hplace⟩ := leadingPlace_spec hpos hm
  rw [shortest, if_neg hpos.ne']
  dsimp only
  generalize leadingPlace (units m) = place at *
  have hsome :
      ((List.range 17).findSome? fun i : Nat => onGrid tie m (place - (i + 1 : Nat))).isSome := by
    rw [List.findSome?_isSome_iff]
    exact ⟨16, List.mem_range.2 (by decide), hlast⟩
  obtain ⟨d, hd⟩ := Option.isSome_iff_exists.1 hsome
  obtain ⟨i, hi, hgrid⟩ := List.exists_of_findSome?_eq_some hd
  obtain ⟨hback, hdigits⟩ := onGrid_eq_some hgrid
  refine ⟨d, by rw [hd, Option.getD_some], hback, hdigits.trans ?_⟩
  obtain ⟨hlow, -⟩ := below_spec m (place - (i + 1 : Nat))
  generalize below (units m) (place - (i + 1 : Nat)) = lo at *
  have hi17 : i + 1 ≤ 17 := List.mem_range.1 hi
  have hlo : (lo : ℚ) < 10 ^ (i + 1) := by
    have hpow : (10 : ℚ) ^ place = 10 ^ (i + 1) * 10 ^ (place - (i + 1 : Nat)) := by
      rw [← zpow_natCast, ← zpow_add₀ (by norm_num), add_sub_cancel]
    rw [hpow] at hplace
    exact lt_of_mul_lt_mul_right (hlow.trans_lt hplace) (zpow_pos (by norm_num) _).le
  calc lo + 1 ≤ 10 ^ (i + 1) := by exact_mod_cast hlo
    _ ≤ 10 ^ 17 := Nat.pow_le_pow_right (by decide) hi17

/-- Without digits there is nothing to round. -/
theorem magnitude_of_digits_eq_zero {d : Decimal} (h : d.digits = 0) : d.magnitude = 0 := by
  refine magnitude_of_value (by decide +kernel) ?_
  rw [value, h, Nat.cast_zero, zero_mul, valueOf, units_zero, Nat.cast_zero, zero_div]

/-- **The shortest decimal reads back.** -/
theorem magnitude_shortest (tie : Tie) {m : Nat} (hm : m < infiniteMagnitude) :
    (shortest tie m).magnitude = m := by
  rcases Nat.eq_zero_or_pos m with rfl | hpos
  · exact magnitude_of_digits_eq_zero rfl
  · obtain ⟨d, hd, hback, -⟩ := exists_shortest_eq_trim tie hpos hm
    rw [hd, magnitude_trim, hback]

/-- Only zero has no digits, and no power then. -/
theorem exponent_shortest_le (tie : Tie) {m : Nat} (hm : m < infiniteMagnitude)
    (h : (shortest tie m).digits = 0) : (shortest tie m).exponent ≤ 0 := by
  obtain rfl : m = 0 := (magnitude_shortest tie hm).symm.trans (magnitude_of_digits_eq_zero h)
  simp [shortest]

/-- **It has 17 digits at most.** -/
theorem digits_shortest_le (tie : Tie) {m : Nat} (hm : m < infiniteMagnitude) :
    (shortest tie m).digits ≤ 10 ^ 17 := by
  rcases Nat.eq_zero_or_pos m with rfl | hpos
  · simp [shortest]
  · obtain ⟨d, hd, -, hdigits⟩ := exists_shortest_eq_trim tie hpos hm
    rw [hd]
    exact (digits_trim_le d).trans hdigits

end Decimal

end Abacus
