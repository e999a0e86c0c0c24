import Abacus.Json.Number
import Abacus.Proofs.Shortest

/-!
# Scaling — digits and a power of ten, read back

Reading scales the digits by a power of ten in doubles, and each step
rounds. Where the digits have 53 binary places at most and the power of
ten is at most 22, both are doubles exactly and one rounding is left, which
is that of the decimal itself (`scale_of_exact`). Elsewhere the result may
be off, but it is never too large for what was printed of a finite double
(`exists_scale_shortest`): the roundings keep the order, so it is enough to
look at the largest digits that go with each power, and the largest double
has to be looked at by itself.
-/

namespace Abacus

namespace Binary64

/-! ## Exact doubles -/

/-- Whole numbers of 53 binary places are doubles. -/
theorem exists_units_eq {n : Nat} (hn : n ≤ 2 ^ 53) :
    ∃ m < infiniteMagnitude, units m = n * unitsPerOne := by
  have hinfinite : infiniteMagnitude = 2047 * 2 ^ 52 := rfl
  rcases Nat.eq_zero_or_pos n with rfl | hpos
  · exact ⟨0, by rw [hinfinite]; decide, by rw [units_zero, Nat.zero_mul]⟩
  · -- the significand moved up until it has its leading bit
    have hlow := Nat.log2_self_le hpos.ne'
    have hhigh : n < 2 ^ (n.log2 + 1) := Nat.lt_log2_self
    have hlog : n.log2 ≤ 53 := by
      by_contra h
      have := Nat.pow_le_pow_right (n := 2) (by decide) (Nat.not_le.1 h)
      omega
    obtain ⟨i, hi⟩ : ∃ i, i = 52 - n.log2 := ⟨_, rfl⟩
    obtain ⟨j, hj⟩ : ∃ j, j + i = 1074 := ⟨1074 - i, by omega⟩
    have hleading : 2 ^ 52 ≤ n * 2 ^ i := by
      calc 2 ^ 52 ≤ 2 ^ (n.log2 + i) := Nat.pow_le_pow_right (by decide) (by omega)
        _ = 2 ^ n.log2 * 2 ^ i := pow_add ..
        _ ≤ n * 2 ^ i := Nat.mul_le_mul_right _ hlow
    have hkept : n * 2 ^ i ≤ 2 ^ 53 := by
      rcases Nat.lt_or_ge n.log2 53 with h | h
      · calc n * 2 ^ i ≤ 2 ^ (n.log2 + 1) * 2 ^ i := Nat.mul_le_mul_right _ hhigh.le
          _ = 2 ^ (n.log2 + 1 + i) := (pow_add ..).symm
          _ = 2 ^ 53 := by rw [hi]; congr 1; omega
      · obtain rfl : i = 0 := by omega
        simpa using hn
    have hone : unitsPerOne = 2 ^ (j + i) := by
      unfold unitsPerOne
      generalize 1074 = places at hj ⊢
      rw [hj, Nat.pow_eq]
    refine ⟨j * 2 ^ 52 + n * 2 ^ i, by rw [hinfinite]; omega, ?_⟩
    rw [units_parts hkept (.inr hleading), hone, pow_add, Nat.mul_assoc, Nat.mul_comm (2 ^ i)]

/-- **They are not rounded.** -/
theorem units_ofNat {n : Nat} (hn : n ≤ 2 ^ 53) :
    units (ofNat n).magnitude = n * unitsPerOne := by
  obtain ⟨m, hm, hunits⟩ := exists_units_eq hn
  rw [ofNat, magnitude_ofRatio,
    roundRatio_of_eq_units Nat.one_pos hm (by rw [hunits, Nat.mul_one]), hunits]

end Binary64

namespace Json

open Binary64

theorem units_power {k : Nat} (hk : k ≤ 22) :
    units (power k).magnitude = Nat.pow 10 k * unitsPerOne := by
  have hall : ∀ k < 23, units (power k).magnitude = Nat.pow 10 k * unitsPerOne := by decide +kernel
  exact hall k (by omega)

theorem magnitude_product (x y : Binary64) :
    (x.product y).magnitude =
      roundRatio (units x.magnitude * units y.magnitude) (unitsPerOne * unitsPerOne) :=
  magnitude_ofRatio ..

theorem magnitude_power (k : Nat) : (power k).magnitude = roundRatio (Nat.pow 10 k) 1 :=
  magnitude_ofRatio ..

/-- **More digits and larger powers** give no smaller product. -/
theorem magnitude_product_mono {n n' k k' : Nat} (hn : n ≤ n') (hk : k ≤ k') :
    ((ofNat n).product (power k)).magnitude ≤ ((ofNat n').product (power k')).magnitude := by
  have hone : 0 < unitsPerOne * unitsPerOne := Nat.mul_pos unitsPerOne_pos unitsPerOne_pos
  have hdigits : units (ofNat n).magnitude ≤ units (ofNat n').magnitude := by
    refine units_strictMono.monotone ?_
    rw [ofNat, ofNat, magnitude_ofRatio, magnitude_ofRatio]
    exact roundRatio_mono Nat.one_pos Nat.one_pos (Nat.mul_le_mul_right 1 hn)
  have hpower : units (power k).magnitude ≤ units (power k').magnitude := by
    refine units_strictMono.monotone ?_
    rw [magnitude_power, magnitude_power]
    exact roundRatio_mono Nat.one_pos Nat.one_pos
      (Nat.mul_le_mul_right 1 (Nat.pow_le_pow_right (by decide) hk))
  rw [magnitude_product, magnitude_product]
  exact roundRatio_mono hone hone (Nat.mul_le_mul_right _ (Nat.mul_le_mul hdigits hpower))

/-- The middle below the largest finite double. What is printed of smaller
doubles is not above it. -/
def topMiddle : Nat := Nat.pow 2 1024 - 3 * Nat.pow 2 970

theorem le_topMiddle {n : Nat} (h : roundRatio n 1 ≤ infiniteMagnitude - 2) : n ≤ topMiddle := by
  have hmiddle : units (infiniteMagnitude - 2) + units (infiniteMagnitude - 2 + 1) =
      2 * topMiddle * unitsPerOne := by decide +kernel
  rw [roundRatio_le_iff Nat.one_pos (by decide +kernel), BelowMiddle, hmiddle, Nat.mul_one,
    ← Nat.mul_assoc] at h
  have hle : 2 * n * unitsPerOne ≤ 2 * topMiddle * unitsPerOne := by
    rcases h with h | ⟨h, -⟩
    · exact h.le
    · exact h.le
  have := Nat.le_of_mul_le_mul_right hle unitsPerOne_pos
  omega

/-- **Up to that middle no product is too large**: neither for the most
digits with a power that leaves room, nor for what is left of the middle
with each of the others. -/
theorem product_lt_of_le_topMiddle {n k : Nat} (hn : n ≤ Nat.pow 10 17) (hk : k ≤ largestPower)
    (h : n * Nat.pow 10 k ≤ topMiddle) :
    ((ofNat n).product (power k)).magnitude < infiniteMagnitude := by
  -- from `10 ^ 291` on, 17 digits do not fit under the middle any more
  rcases Nat.lt_or_ge k 291 with hlow | hhigh
  · have hmost : ((ofNat (Nat.pow 10 17)).product (power 290)).magnitude < infiniteMagnitude := by
      decide +kernel
    exact (magnitude_product_mono hn (Nat.le_of_lt_succ hlow)).trans_lt hmost
  · have hleft : ∀ i < 18, ((ofNat (topMiddle / Nat.pow 10 (291 + i))).product
        (power (291 + i))).magnitude < infiniteMagnitude := by decide +kernel
    obtain ⟨i, rfl⟩ := Nat.exists_eq_add_of_le hhigh
    have hi : i < 18 := by
      unfold largestPower at hk
      omega
    have hdigits := (Nat.le_div_iff_mul_le (Decimal.ten_pow_pos (291 + i))).2 h
    exact (magnitude_product_mono hdigits (Nat.le_refl _)).trans_lt (hleft i hi)

/-! ## Scaling -/

/-- Scaling down never fails. -/
theorem exists_scale_of_neg (x : Binary64) {e : Int} (he : e < 0) : ∃ y, scale x e = some y := by
  induction hn : e.natAbs using Nat.strong_induction_on generalizing x e with
  | _ n ih =>
    rw [scale]
    split
    · rw [if_neg (by omega)]
      exact ⟨_, rfl⟩
    · rename_i hlarge
      split
      · exact ⟨x, rfl⟩
      · rw [if_neg (by omega)]
        unfold largestPower at hlarge ⊢
        exact ih (e + (308 : Nat)).natAbs (by omega) _ (by omega) rfl

theorem isInfinite_eq_false {x : Binary64} (h : x.magnitude < infiniteMagnitude) :
    x.isInfinite = false :=
  beq_false_of_ne h.ne

/-- Scaling up by a power that is a double is one product. -/
theorem scale_natCast {x : Binary64} {k : Nat} (hk : k ≤ largestPower)
    (h : (x.product (power k)).magnitude < infiniteMagnitude) :
    scale x k = some (x.product (power k)) := by
  rw [scale, Int.natAbs_natCast, if_pos hk, if_pos (Int.natCast_nonneg k)]
  simp only [isInfinite_eq_false h, Bool.false_eq_true, if_false]

/-- Scaling down by one is one quotient. -/
theorem scale_neg_natCast {x : Binary64} {k : Nat} (hpos : 0 < k) (hk : k ≤ largestPower) :
    scale x (-k) = some (x.quotient (power k)) := by
  rw [scale, Int.natAbs_neg, Int.natAbs_natCast, if_pos hk, if_neg (by omega)]

/-- The magnitude of a whole number times a power of ten. -/
theorem magnitude_natCast (n k : Nat) :
    (⟨n, k⟩ : Decimal).magnitude = roundRatio (n * Nat.pow 10 k) 1 := by
  have hdown : (-(k : Int)).toNat = 0 := by omega
  simp only [Decimal.magnitude, Int.toNat_natCast, hdown, Nat.pow_eq, pow_zero]

theorem lt_of_ten_pow_lt {a b : Nat} (h : Nat.pow 10 a < Nat.pow 10 b) : a < b :=
  (Nat.pow_lt_pow_iff_right (by decide)).1 h

/-- And over one. -/
theorem magnitude_neg_natCast (n k : Nat) :
    (⟨n, -k⟩ : Decimal).magnitude = roundRatio n (Nat.pow 10 k) := by
  have hup : (-(k : Int)).toNat = 0 := by omega
  simp only [Decimal.magnitude, neg_neg, Int.toNat_natCast, hup, Nat.pow_eq, pow_zero, Nat.mul_one]

/-- **The shortest decimal of a finite double is not too large to be read**,
whatever the roundings on the way. -/
theorem exists_scale_shortest {m : Nat} (hm : m < infiniteMagnitude) :
    ∃ y, scale (ofNat (Decimal.shortest .even m).digits) (Decimal.shortest .even m).exponent =
      some y := by
  -- the digits of the largest double are above the middle that bounds the others
  rcases Nat.lt_or_ge m (infiniteMagnitude - 1) with hlt | hge
  · have hback := Decimal.magnitude_shortest .even hm
    have hdigits := Decimal.digits_shortest_le .even hm
    have hzero := Decimal.exponent_shortest_le .even hm
    generalize Decimal.shortest .even m = d at *
    obtain ⟨n, e⟩ := d
    rcases Int.lt_or_le e 0 with hneg | hnonneg
    · exact exists_scale_of_neg _ hneg
    · obtain ⟨k, rfl⟩ := Int.eq_ofNat_of_zero_le hnonneg
      rw [magnitude_natCast] at hback
      have hle : n * Nat.pow 10 k ≤ topMiddle := le_topMiddle (by omega)
      have hk : k ≤ largestPower := by
        rcases Nat.eq_zero_or_pos n with rfl | hpos
        · have : (k : Int) ≤ 0 := hzero rfl
          omega
        · have hpower : Nat.pow 10 k < Nat.pow 10 309 := by
            calc Nat.pow 10 k ≤ n * Nat.pow 10 k := Nat.le_mul_of_pos_left _ hpos
              _ ≤ topMiddle := hle
              _ < Nat.pow 10 309 := by decide +kernel
          have hlt := lt_of_ten_pow_lt hpower
          exact Nat.le_of_lt_succ hlt
      exact ⟨_, scale_natCast hk (product_lt_of_le_topMiddle hdigits hk hle)⟩
  · obtain rfl : m = infiniteMagnitude - 1 := by omega
    have hlargest : Decimal.shortest .even (infiniteMagnitude - 1) = ⟨17976931348623157, 292⟩ := by
      decide +kernel
    rw [hlargest]
    exact ⟨_, scale_natCast (k := 292) (by decide) (by decide +kernel)⟩

/-- **Digits and powers that are doubles exactly** are scaled to the double
nearest to the decimal. -/
theorem scale_of_exact {d : Decimal} (hdigits : d.digits ≤ 2 ^ 53) (hpower : d.exponent.natAbs ≤ 22)
    (hd : d.magnitude < infiniteMagnitude) :
    scale (ofNat d.digits) d.exponent = some (.ofMagnitude false d.magnitude) := by
  obtain ⟨n, e⟩ := d
  have hn := units_ofNat hdigits
  have hone := unitsPerOne_pos
  rcases Int.lt_or_le e 0 with hneg | hnonneg
  · obtain ⟨k, rfl⟩ := Int.exists_eq_neg_ofNat hneg.le
    have hk : k ≤ 22 := by simpa using hpower
    rw [scale_neg_natCast (by omega) (hk.trans (by decide)), magnitude_neg_natCast, quotient, hn,
      units_power hk]
    have hvalue : roundRatio (n * unitsPerOne) (Nat.pow 10 k * unitsPerOne) =
        roundRatio n (Nat.pow 10 k) :=
      roundRatio_congr (Nat.mul_pos (Decimal.ten_pow_pos k) hone) (Decimal.ten_pow_pos k) (by ring)
    rw [ofRatio, hvalue]
    rfl
  · obtain ⟨k, rfl⟩ := Int.eq_ofNat_of_zero_le hnonneg
    have hk : k ≤ 22 := by simpa using hpower
    have hvalue : roundRatio (n * unitsPerOne * (Nat.pow 10 k * unitsPerOne))
        (unitsPerOne * unitsPerOne) = roundRatio (n * Nat.pow 10 k) 1 :=
      roundRatio_congr (Nat.mul_pos hone hone) Nat.one_pos (by ring)
    rw [magnitude_natCast] at hd ⊢
    have hproduct : ((ofNat n).product (power k)).magnitude = roundRatio (n * Nat.pow 10 k) 1 := by
      rw [magnitude_product, hn, units_power hk, hvalue]
    rw [scale_natCast (hk.trans (by decide)) (hproduct ▸ hd), product, hn, units_power hk, ofRatio,
      hvalue]
    rfl

end Json

end Abacus
