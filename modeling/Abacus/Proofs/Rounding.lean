import Abacus.Binary64
import Mathlib.Algebra.Order.Ring.Nat
import Mathlib.Order.Monotone.Basic
import Mathlib.Tactic.Linarith
import Mathlib.Tactic.Ring

/-!
# Rounding — which magnitude a quotient goes to

Magnitudes are places on the line of units, each further on than the one
before (`units_strictMono`). A quotient goes to the magnitude `m` or below
exactly when it lies below the middle between `m` and the next one, or on
that middle and `m` is even (`roundRatio_le_iff`). This one equivalence
holds the whole of rounding to nearest: that it keeps the order
(`roundRatio_mono`), depends on the value alone (`roundRatio_congr`), gives
back a magnitude's own value (`roundRatio_of_eq_units`), and gives it for
all that is near it (`roundRatio_of_near`).
-/

namespace Abacus

namespace Binary64

/-- Finite doubles are neither infinite nor no number. -/
theorem isFinite_iff {v : Binary64} : v.isFinite ↔ v.isNaN = false ∧ v.isInfinite = false := by
  simp only [isFinite, isNaN, isInfinite, decide_eq_true_eq, decide_eq_false_iff_not,
    beq_eq_false_iff_ne]
  omega

/-! ## Units -/

/-- A magnitude made of a significand `k` and `j` dropped places stands for
`k * 2 ^ j` units. A significand one too large carries into the exponent
field. -/
theorem units_parts {j k : Nat} (hk : k ≤ 2 ^ 53) (h : j = 0 ∨ 2 ^ 52 ≤ k) :
    units (j * 2 ^ 52 + k) = k * 2 ^ j := by
  unfold units
  simp only [Nat.pow_eq]
  rcases Nat.lt_or_ge k (2 ^ 52) with hlow | hnormal
  · -- a fraction without its leading bit
    obtain rfl : j = 0 := h.resolve_right (by omega)
    rw [if_pos (by omega)]
    simp
  · rw [if_neg (by omega)]
    rcases Nat.lt_or_ge k (2 ^ 53) with hlt | hcarry
    · have hmod : (j * 2 ^ 52 + k) % 2 ^ 52 = k - 2 ^ 52 := by omega
      have hdiv : (j * 2 ^ 52 + k) / 2 ^ 52 = j + 1 := by omega
      have hsum : 2 ^ 52 + (k - 2 ^ 52) = k := by omega
      rw [hmod, hdiv, hsum, Nat.add_sub_cancel]
    · obtain rfl : k = 2 ^ 53 := by omega
      have hmod : (j * 2 ^ 52 + 2 ^ 53) % 2 ^ 52 = 0 := by omega
      have hdiv : (j * 2 ^ 52 + 2 ^ 53) / 2 ^ 52 = j + 2 := by omega
      rw [hmod, hdiv, Nat.add_zero, Nat.add_succ_sub_one, pow_succ]
      ring

/-- **Every magnitude has a significand and dropped places.** -/
theorem exists_parts (m : Nat) :
    ∃ j k, m = j * 2 ^ 52 + k ∧ k < 2 ^ 53 ∧ (j = 0 ∨ 2 ^ 52 ≤ k) := by
  rcases Nat.lt_or_ge m (2 ^ 52) with h | h
  · exact ⟨0, m, by omega, by omega, .inl rfl⟩
  · exact ⟨m / 2 ^ 52 - 1, 2 ^ 52 + m % 2 ^ 52, by omega, by omega, .inr (by omega)⟩

/-- A magnitude and the next one are one unit of the last kept place
apart. -/
theorem exists_units (m : Nat) :
    ∃ j k, k < 2 ^ 53 ∧ units m = k * 2 ^ j ∧ units (m + 1) = (k + 1) * 2 ^ j := by
  obtain ⟨j, k, rfl, hk, h⟩ := exists_parts m
  refine ⟨j, k, hk, units_parts (by omega) h, ?_⟩
  rw [Nat.add_assoc]
  exact units_parts (by omega) (h.imp id (by omega))

theorem units_strictMono : StrictMono units := by
  refine strictMono_nat_of_lt_succ fun m => ?_
  obtain ⟨j, k, -, hm, hnext⟩ := exists_units m
  rw [hm, hnext]
  exact Nat.mul_lt_mul_of_pos_right (Nat.lt_succ_self k) (Nat.two_pow_pos j)

theorem units_zero : units 0 = 0 := rfl

theorem unitsPerOne_pos : 0 < unitsPerOne := by decide +kernel

/-- The gap above a magnitude is more than its `2 ^ 53`rd part. -/
theorem units_gap_above (m : Nat) : (2 ^ 53 + 1) * units m < 2 ^ 53 * units (m + 1) := by
  obtain ⟨j, k, hk, hm, hnext⟩ := exists_units m
  rw [hm, hnext, ← Nat.mul_assoc, ← Nat.mul_assoc]
  exact Nat.mul_lt_mul_of_pos_right (by omega) (Nat.two_pow_pos j)

/-- And the gap below at least that part. -/
theorem units_gap_below (m : Nat) : 2 ^ 53 * units m ≤ (2 ^ 53 - 1) * units (m + 1) := by
  obtain ⟨j, k, hk, hm, hnext⟩ := exists_units m
  rw [hm, hnext, ← Nat.mul_assoc, ← Nat.mul_assoc]
  exact Nat.mul_le_mul_right _ (by omega)

/-! ## Whole numbers -/

/-- **A quotient goes to `k` or below** when it is below `k` and a half, or
just there and `k` is even. -/
theorem nearestEven_le_iff {n d k : Nat} (hd : 0 < d) :
    nearestEven n d ≤ k ↔ 2 * n < (2 * k + 1) * d ∨ (2 * n = (2 * k + 1) * d ∧ k % 2 = 0) := by
  have hsplit : n = d * (n / d) + n % d := (Nat.div_add_mod n d).symm
  have hr : n % d < d := Nat.mod_lt n hd
  have hhalf : (2 * k + 1) * d = 2 * (d * k) + d := by ring
  unfold nearestEven
  simp only
  generalize n / d = q at *
  generalize n % d = r at *
  rw [hhalf, hsplit]
  -- the multiples of `d` on the near side of `q`, at it, and beyond
  rcases Nat.lt_trichotomy q k with h | rfl | h
  · have hstep : d * q + d ≤ d * k := by
      rw [← Nat.mul_succ]
      exact Nat.mul_le_mul_left d h
    split
    · omega
    · split <;> omega
  · split
    · omega
    · split <;> omega
  · have hstep : d * k + d ≤ d * q := by
      rw [← Nat.mul_succ]
      exact Nat.mul_le_mul_left d h
    split
    · omega
    · split <;> omega

theorem le_nearestEven {n d k : Nat} (hd : 0 < d) (h : k * d ≤ n) : k ≤ nearestEven n d := by
  cases k with
  | zero => exact Nat.zero_le _
  | succ k =>
    have hhalf : (2 * k + 1) * d + d = 2 * ((k + 1) * d) := by ring
    refine Nat.lt_of_not_le fun hle => ?_
    rw [nearestEven_le_iff hd] at hle
    omega

/-! ## Quotients -/

/-- **A quotient of units lies below the middle** between a magnitude and
the next one. The middle itself belongs to the even magnitude. -/
def BelowMiddle (m s d : Nat) : Prop :=
  2 * s < (units m + units (m + 1)) * d ∨ (2 * s = (units m + units (m + 1)) * d ∧ m % 2 = 0)

/-- What is no larger lies below the same middles. -/
theorem BelowMiddle.mono {m s d s' d' : Nat} (hd : 0 < d) (hd' : 0 < d')
    (hle : s * d' ≤ s' * d) (h : BelowMiddle m s' d') : BelowMiddle m s d := by
  unfold BelowMiddle at h ⊢
  generalize units m + units (m + 1) = c at h ⊢
  have hscaled : 2 * s * d' ≤ 2 * s' * d := by
    rw [Nat.mul_assoc, Nat.mul_assoc]
    exact Nat.mul_le_mul_left 2 hle
  rcases h with hlt | ⟨heq, heven⟩
  · left
    refine Nat.lt_of_mul_lt_mul_right (a := d') ?_
    calc 2 * s * d' ≤ 2 * s' * d := hscaled
      _ < c * d' * d := Nat.mul_lt_mul_of_pos_right hlt hd
      _ = c * d * d' := Nat.mul_right_comm c d' d
  · have hbound : 2 * s ≤ c * d := by
      refine Nat.le_of_mul_le_mul_right ?_ hd'
      calc 2 * s * d' ≤ 2 * s' * d := hscaled
        _ = c * d * d' := by rw [heq, Nat.mul_right_comm]
    exact (Nat.lt_or_eq_of_le hbound).imp id fun h => ⟨h, heven⟩

/-- The places kept of a quotient: it is below `2 ^ 53` of the last one, and
from `2 ^ 52` of it on unless no place is dropped. -/
theorem kept_places {s d : Nat} (hd : 0 < d) :
    s < 2 ^ 53 * (d * 2 ^ droppedPlaces (s / d)) ∧
      (droppedPlaces (s / d) = 0 ∨ 2 ^ 52 * (d * 2 ^ droppedPlaces (s / d)) ≤ s) := by
  have hpow : ∀ a j, 2 ^ a * (d * 2 ^ j) = 2 ^ (a + j) * d := fun a j => by
    rw [pow_add]
    ring
  rw [hpow, hpow]
  constructor
  · refine (Nat.div_lt_iff_lt_mul hd).1 (Nat.lt_of_lt_of_le Nat.lt_log2_self ?_)
    refine Nat.pow_le_pow_right (by decide) ?_
    unfold droppedPlaces
    omega
  · by_cases hj : droppedPlaces (s / d) = 0
    · exact .inl hj
    · have hlog : (s / d).log2 = 52 + droppedPlaces (s / d) := by
        unfold droppedPlaces at hj ⊢
        omega
      have hne : s / d ≠ 0 := by
        intro h
        rw [h, Nat.log2_zero] at hlog
        omega
      right
      refine (Nat.le_div_iff_mul_le hd).1 ?_
      rw [← hlog]
      exact Nat.log2_self_le hne

/-- **A quotient of units goes to `m` or below** exactly when it lies below
the middle above `m`. -/
theorem rounded_le_iff {s d m : Nat} (hd : 0 < d) :
    droppedPlaces (s / d) * 2 ^ 52 + nearestEven s (d * 2 ^ droppedPlaces (s / d)) ≤ m ↔
      BelowMiddle m s d := by
  obtain ⟨hbelow, hfrom⟩ := kept_places (s := s) hd
  generalize droppedPlaces (s / d) = j at *
  have hplace : 0 < d * 2 ^ j := Nat.mul_pos hd (Nat.two_pow_pos j)
  have hunits : ∀ k, k * 2 ^ j * d = k * (d * 2 ^ j) := fun k => by ring
  have hnext : units m < units (m + 1) := units_strictMono (Nat.lt_succ_self m)
  -- `m` is below the places kept, among them, or beyond
  by_cases hlow : j ≠ 0 ∧ m < j * 2 ^ 52 + 2 ^ 52
  · obtain ⟨hj, hm⟩ := hlow
    have hs : 2 ^ 52 * (d * 2 ^ j) ≤ s := hfrom.resolve_left hj
    have hkept : 2 ^ 52 ≤ nearestEven s (d * 2 ^ j) := le_nearestEven hplace hs
    have hmiddle : (units m + units (m + 1)) * d < 2 * s := by
      have hunit : units (m + 1) ≤ 2 ^ 52 * 2 ^ j := by
        rw [← units_parts (by omega) (.inr (Nat.le_refl _))]
        exact units_strictMono.monotone (by omega)
      have hsum : units m + units (m + 1) < 2 * (2 ^ 52 * 2 ^ j) := by omega
      calc (units m + units (m + 1)) * d < 2 * (2 ^ 52 * 2 ^ j) * d :=
            Nat.mul_lt_mul_of_pos_right hsum hd
        _ = 2 * (2 ^ 52 * (d * 2 ^ j)) := by rw [Nat.mul_assoc, hunits]
        _ ≤ 2 * s := Nat.mul_le_mul_left 2 hs
    unfold BelowMiddle
    omega
  · by_cases hhigh : j * 2 ^ 52 + 2 ^ 53 ≤ m
    · have hkept : nearestEven s (d * 2 ^ j) ≤ 2 ^ 53 := by
        rw [nearestEven_le_iff hplace]
        omega
      have hmiddle : 2 * s < (units m + units (m + 1)) * d := by
        have hunit : 2 ^ 53 * 2 ^ j ≤ units m := by
          rw [← units_parts (Nat.le_refl _) (.inr (by omega))]
          exact units_strictMono.monotone hhigh
        have hsum : 2 * (2 ^ 53 * 2 ^ j) ≤ units m + units (m + 1) := by omega
        calc 2 * s < 2 * (2 ^ 53 * (d * 2 ^ j)) := Nat.mul_lt_mul_of_pos_left hbelow (by decide)
          _ = 2 * (2 ^ 53 * 2 ^ j) * d := by rw [Nat.mul_assoc 2 _ d, hunits]
          _ ≤ (units m + units (m + 1)) * d := Nat.mul_le_mul_right d hsum
      unfold BelowMiddle
      omega
    · obtain ⟨k, rfl, hk, hjk⟩ :
          ∃ k, m = j * 2 ^ 52 + k ∧ k < 2 ^ 53 ∧ (j = 0 ∨ 2 ^ 52 ≤ k) :=
        ⟨m - j * 2 ^ 52, by omega, by omega, by omega⟩
      have hunit := units_parts (Nat.le_of_lt hk) hjk
      have hunit' : units (j * 2 ^ 52 + k + 1) = (k + 1) * 2 ^ j := by
        rw [Nat.add_assoc]
        exact units_parts (by omega) (hjk.imp id (by omega))
      have hsum : (k * 2 ^ j + (k + 1) * 2 ^ j) * d = (2 * k + 1) * (d * 2 ^ j) := by ring
      have heven : (j * 2 ^ 52 + k) % 2 = k % 2 := by omega
      rw [BelowMiddle, hunit, hunit', hsum, heven, Nat.add_le_add_iff_left,
        nearestEven_le_iff hplace]

/-- **The rounding rule.** A quotient goes to the finite magnitude `m` or
below exactly when it lies below the middle above `m`. -/
theorem roundRatio_le_iff {n d m : Nat} (hd : 0 < d) (hm : m < infiniteMagnitude) :
    roundRatio n d ≤ m ↔ BelowMiddle m (n * unitsPerOne) d := by
  rw [← rounded_le_iff hd, roundRatio]
  exact ⟨fun h => (min_le_iff.1 h).resolve_left (Nat.not_le.2 hm),
    Nat.le_trans (Nat.min_le_right _ _)⟩

theorem roundRatio_le (n d : Nat) : roundRatio n d ≤ infiniteMagnitude := Nat.min_le_left _ _

theorem magnitude_ofRatio (negative : Bool) (n d : Nat) :
    (ofRatio negative n d).magnitude = roundRatio n d :=
  Nat.min_eq_right (roundRatio_le n d)

/-- Rounding ends in a number, if an infinite one. -/
theorem isNaN_ofRatio (negative : Bool) (n d : Nat) : (ofRatio negative n d).isNaN = false :=
  decide_eq_false (Nat.not_lt.2 (Nat.min_le_left _ _))

/-- **Rounding keeps the order.** -/
theorem roundRatio_mono {n d n' d' : Nat} (hd : 0 < d) (hd' : 0 < d') (h : n * d' ≤ n' * d) :
    roundRatio n d ≤ roundRatio n' d' := by
  rcases Nat.lt_or_eq_of_le (roundRatio_le n' d') with hfinite | hinfinite
  · have hmiddle := (roundRatio_le_iff hd' hfinite).1 (Nat.le_refl _)
    refine (roundRatio_le_iff hd hfinite).2 (hmiddle.mono hd hd' ?_)
    calc n * unitsPerOne * d' = n * d' * unitsPerOne := Nat.mul_right_comm ..
      _ ≤ n' * d * unitsPerOne := Nat.mul_le_mul_right _ h
      _ = n' * unitsPerOne * d := Nat.mul_right_comm ..
  · rw [hinfinite]
    exact roundRatio_le n d

/-- **It depends on the value alone**, not on how it is written. -/
theorem roundRatio_congr {n d n' d' : Nat} (hd : 0 < d) (hd' : 0 < d') (h : n * d' = n' * d) :
    roundRatio n d = roundRatio n' d' :=
  Nat.le_antisymm (roundRatio_mono hd hd' (Nat.le_of_eq h))
    (roundRatio_mono hd' hd (Nat.le_of_eq h.symm))

/-- What lies between the middles around a finite magnitude goes to it. -/
theorem roundRatio_of_between {n d m : Nat} (hd : 0 < d) (hm : m + 1 < infiniteMagnitude)
    (hlow : (units m + units (m + 1)) * d < 2 * (n * unitsPerOne))
    (hhigh : 2 * (n * unitsPerOne) < (units (m + 1) + units (m + 1 + 1)) * d) :
    roundRatio n d = m + 1 := by
  have hle : roundRatio n d ≤ m + 1 := (roundRatio_le_iff hd hm).2 (.inl hhigh)
  have hgt : ¬ roundRatio n d ≤ m := by
    rw [roundRatio_le_iff hd (by omega), BelowMiddle]
    omega
  omega

/-- **What is near a finite magnitude goes to it**: nearer than the
`2 ^ 54`th part of it. -/
theorem roundRatio_of_near {n d m : Nat} (hd : 0 < d) (hpos : 0 < m)
    (hm : m < infiniteMagnitude)
    (hlow : (2 ^ 54 - 1) * (units m * d) < 2 ^ 54 * (n * unitsPerOne))
    (hhigh : 2 ^ 54 * (n * unitsPerOne) < (2 ^ 54 + 1) * (units m * d)) :
    roundRatio n d = m := by
  obtain ⟨m, rfl⟩ := Nat.exists_eq_add_of_lt hpos
  rw [Nat.zero_add] at *
  have habove := Nat.mul_lt_mul_of_pos_right (units_gap_above (m + 1)) hd
  have hbelow := Nat.mul_le_mul_right d (units_gap_below m)
  rw [Nat.mul_assoc, Nat.mul_assoc] at habove hbelow
  refine roundRatio_of_between hd hm ?_ ?_
  · rw [Nat.add_mul]
    omega
  · rw [Nat.add_mul]
    omega

/-- **A magnitude's own value goes to it.** -/
theorem roundRatio_of_eq_units {n d m : Nat} (hd : 0 < d) (hm : m < infiniteMagnitude)
    (h : n * unitsPerOne = units m * d) : roundRatio n d = m := by
  rcases Nat.eq_zero_or_pos m with rfl | hpos
  · have hle : roundRatio n d ≤ 0 := by
      have hnext : units 0 < units (0 + 1) := units_strictMono Nat.zero_lt_one
      have := Nat.mul_lt_mul_of_pos_right hnext hd
      rw [roundRatio_le_iff hd hm, BelowMiddle, h, Nat.add_mul]
      omega
    exact Nat.le_zero.1 hle
  · have hunits : 0 < units m * d := by
      have := units_strictMono hpos
      exact Nat.mul_pos (by omega) hd
    refine roundRatio_of_near hd hpos hm ?_ ?_ <;> omega

end Binary64

end Abacus
