import Abacus.Proofs.Shortest
import Mathlib.Tactic.Positivity

/-!
# Nearest doubles — what rounding means

A double stands for a rational number (`Binary64.toRat`), and `Nearest`
says of a value and a double that none is closer: of two that are equally
close it is the even one, and it is infinite from the middle between the
largest finite double and the next power of two on. The rounding rule is
about middles (`roundRatio_le_iff_middle`). Read as one about distances it
says that a quotient goes to the double nearest to it (`nearest_ofRatio`),
which is the only one (`Nearest.unique`), and where the two ends of the
line are: zero (`ofRatio_eq_zero_iff`) and infinity
(`isInfinite_ofRatio_iff`).
-/

namespace Abacus

namespace Binary64

open Decimal

/-! ## Values -/

/-- The value of a finite double. -/
def toRat (x : Binary64) : ℚ := (if x.negative then -1 else 1) * valueOf x.magnitude

/-- A double is its sign and its magnitude. -/
theorem eq_of_magnitude {x y : Binary64} (hsign : x.negative = y.negative)
    (h : x.magnitude = y.magnitude) : x = y := by
  obtain ⟨_, _, _⟩ := x
  obtain ⟨_, _, _⟩ := y
  simp_all

/-- **Doubles with the same bits are the same.** -/
theorem bits_injective : Function.Injective bits := by
  intro x y h
  have hx := x.bound
  have hy := y.bound
  unfold bits at h
  by_cases hnegative : x.negative <;> by_cases hnegative' : y.negative <;>
    simp only [hnegative, hnegative', if_true, if_false, Bool.false_eq_true] at h
  · exact eq_of_magnitude (by rw [hnegative, hnegative']) (by omega)
  · omega
  · omega
  · exact eq_of_magnitude (by simp_all) (by omega)

/-- **One double is at most another**, as numbers compare: what is no number
compares with nothing, and the infinities lie at both ends. -/
def AtMost (x y : Binary64) : Prop :=
  x.isNaN = false ∧ y.isNaN = false ∧
    ((x.isInfinite ∧ x.negative) ∨ (y.isInfinite ∧ y.negative = false) ∨
      (x.isFinite ∧ y.isFinite ∧ x.toRat ≤ y.toRat))

/-- **The double nearest to a value**, infinities included. -/
structure Nearest (q : ℚ) (x : Binary64) : Prop where
  /-- No finite double is closer than a finite one that is nearest. -/
  closest : x.isFinite → ∀ y : Binary64, y.isFinite → |x.toRat - q| ≤ |y.toRat - q|
  /-- Of two that are equally close it is the one with the even
  significand. -/
  even : x.isFinite → ∀ y : Binary64, y.isFinite → y.toRat ≠ x.toRat →
    |x.toRat - q| = |y.toRat - q| → x.magnitude % 2 = 0
  /-- From half a last place above the largest finite double on it is
  infinite. -/
  infinite : x.isInfinite ↔ 2 ^ 1024 - 2 ^ 970 ≤ q
  /-- It is a number. -/
  number : x.isNaN = false

theorem valueOf_strictMono : StrictMono valueOf := fun _ _ h =>
  div_lt_div_of_pos_right (by exact_mod_cast units_strictMono h) unitsPerOne_cast_pos

theorem valueOf_zero : valueOf 0 = 0 := by rw [valueOf, units_zero, Nat.cast_zero, zero_div]

theorem valueOf_nonneg (m : Nat) : 0 ≤ valueOf m := by
  rw [← valueOf_zero]
  exact valueOf_strictMono.monotone (Nat.zero_le m)

/-- A significand and its dropped places, as a value. -/
theorem valueOf_parts {j k : Nat} {e : ℤ} (hk : k ≤ 2 ^ 53) (h : j = 0 ∨ 2 ^ 52 ≤ k)
    (he : j - 1074 = e) : valueOf (j * 2 ^ 52 + k) = k * 2 ^ e := by
  rw [valueOf, units_parts hk h, Nat.cast_mul, Nat.cast_pow, Nat.cast_ofNat, mul_div_assoc,
    unitsPerOne_cast, ← zpow_natCast, ← zpow_sub₀ (by norm_num), he]

/-- The smallest value above zero. -/
theorem valueOf_one : valueOf 1 = 1 / 2 ^ 1074 := by
  have h := valueOf_parts (j := 0) (k := 1) (by norm_num) (.inl rfl) rfl
  rw [Nat.zero_mul, Nat.zero_add, Nat.cast_one, one_mul] at h
  rw [h, one_div, ← zpow_ofNat, ← zpow_neg]
  rfl

/-- The infinity stands where the next double would be. -/
theorem valueOf_infinite : valueOf infiniteMagnitude = 2 ^ 1024 := by
  have h := valueOf_parts (j := 2046) (k := 2 ^ 52) (e := 972) (by norm_num) (.inr le_rfl) rfl
  have hmagnitude : infiniteMagnitude = 2046 * 2 ^ 52 + 2 ^ 52 := rfl
  rw [hmagnitude, h, Nat.cast_pow, Nat.cast_ofNat, zpow_ofNat, ← pow_add]

/-- The largest finite value. -/
theorem valueOf_largest : valueOf (infiniteMagnitude - 1) = 2 ^ 1024 - 2 ^ 971 := by
  have h := valueOf_parts (j := 2045) (k := 2 ^ 53 - 1) (e := 971) (by norm_num)
    (.inr (by norm_num)) rfl
  have hmagnitude : infiniteMagnitude - 1 = 2045 * 2 ^ 52 + (2 ^ 53 - 1) := rfl
  have hsplit : (2 : ℚ) ^ 1024 = 2 ^ 53 * 2 ^ 971 := by rw [← pow_add]
  rw [hmagnitude, h, hsplit, zpow_ofNat]
  generalize (2 : ℚ) ^ 971 = a
  push_cast
  ring

/-! ## The rounding rule on values -/

/-- A middle, as a comparison of quotients. -/
theorem belowMiddle_iff {n d m c : Nat} (hd : 0 < d) (hc : 0 < c) :
    BelowMiddle m (n * c) d ↔ 2 * (n / d : ℚ) < units m / c + units (m + 1) / c ∨
      (2 * (n / d : ℚ) = units m / c + units (m + 1) / c ∧ m % 2 = 0) := by
  have hdq : (0 : ℚ) < d := by exact_mod_cast hd
  have hcq : (0 : ℚ) < c := by exact_mod_cast hc
  rw [BelowMiddle, ← add_div, ← mul_div_assoc, div_lt_div_iff₀ hdq hcq,
    div_eq_div_iff hdq.ne' hcq.ne', mul_assoc]
  norm_cast

/-- **A quotient goes to a magnitude or below** when it lies below the middle
to the next one, or on it, and the magnitude is even. -/
theorem roundRatio_le_iff_middle {n d m : Nat} (hd : 0 < d) (hm : m < infiniteMagnitude) :
    roundRatio n d ≤ m ↔ 2 * (n / d : ℚ) < valueOf m + valueOf (m + 1) ∨
      (2 * (n / d : ℚ) = valueOf m + valueOf (m + 1) ∧ m % 2 = 0) :=
  (roundRatio_le_iff hd hm).trans (belowMiddle_iff hd unitsPerOne_pos)

section

variable {n d : Nat}

/-- A quotient that is rounded is not far above where it goes. -/
theorem twice_le_middle (hd : 0 < d) (h : roundRatio n d < infiniteMagnitude) :
    2 * (n / d : ℚ) ≤ valueOf (roundRatio n d) + valueOf (roundRatio n d + 1) ∧
      (2 * (n / d : ℚ) = valueOf (roundRatio n d) + valueOf (roundRatio n d + 1) →
        roundRatio n d % 2 = 0) := by
  rcases (roundRatio_le_iff_middle hd h).1 le_rfl with hlt | ⟨heq, heven⟩
  · exact ⟨hlt.le, fun heq => absurd heq hlt.ne⟩
  · exact ⟨heq.le, fun _ => heven⟩

/-- And not far below. -/
theorem middle_le_twice (hd : 0 < d) {m : Nat} (h : roundRatio n d = m + 1)
    (hm : m < infiniteMagnitude) :
    valueOf m + valueOf (m + 1) ≤ 2 * (n / d : ℚ) ∧
      (2 * (n / d : ℚ) = valueOf m + valueOf (m + 1) → (m + 1) % 2 = 0) := by
  have hnot : ¬ roundRatio n d ≤ m := by omega
  rw [roundRatio_le_iff_middle hd hm, not_or, not_lt] at hnot
  refine ⟨hnot.1, fun heq => ?_⟩
  have hodd : m % 2 ≠ 0 := fun heven => hnot.2 ⟨heq, heven⟩
  omega

theorem isInfinite_ofRatio (negative : Bool) :
    (ofRatio negative n d).isInfinite = decide (roundRatio n d = infiniteMagnitude) := by
  rw [isInfinite, magnitude_ofRatio]
  rfl

theorem isFinite_ofRatio (negative : Bool) :
    (ofRatio negative n d).isFinite = decide (roundRatio n d < infiniteMagnitude) := by
  rw [isFinite, magnitude_ofRatio]

/-- **A quotient overflows** from the middle above the largest finite double
on: that double is odd, so the middle goes up. -/
theorem isInfinite_ofRatio_iff (negative : Bool) (hd : 0 < d) :
    (ofRatio negative n d).isInfinite ↔ 2 ^ 1024 - 2 ^ 970 ≤ (n / d : ℚ) := by
  have hpos : infiniteMagnitude - 1 < infiniteMagnitude := by decide +kernel
  have hodd : (infiniteMagnitude - 1) % 2 ≠ 0 := by decide +kernel
  have hnext : infiniteMagnitude - 1 + 1 = infiniteMagnitude := by decide +kernel
  have hgap : (2 : ℚ) ^ 971 = 2 ^ 970 * 2 := pow_succ 2 970
  have hle := roundRatio_le n d
  have hfinite := roundRatio_le_iff_middle (n := n) hd hpos
  rw [hnext, valueOf_infinite, valueOf_largest, hgap] at hfinite
  rw [isInfinite_ofRatio, decide_eq_true_eq]
  generalize (2 : ℚ) ^ 1024 = a at *
  generalize (2 : ℚ) ^ 970 = b at *
  constructor
  · intro h
    by_contra hlow
    have := hfinite.2 (.inl (by linarith))
    omega
  · intro h
    by_contra hne
    rcases hfinite.1 (by omega) with hlt | ⟨-, heven⟩
    · linarith
    · exact hodd heven

/-- **A quotient underflows** up to half of the smallest double: zero is
even, so the middle goes down. -/
theorem ofRatio_eq_zero_iff (hd : 0 < d) :
    ofRatio false n d = zero ↔ (n / d : ℚ) ≤ 1 / 2 ^ 1075 := by
  have hpos : 0 < infiniteMagnitude := by decide +kernel
  have hhalf : (2 : ℚ) ^ 1075 = 2 ^ 1074 * 2 := pow_succ 2 1074
  have hzero := roundRatio_le_iff_middle (n := n) hd hpos
  rw [valueOf_zero, Nat.zero_add, valueOf_one, zero_add] at hzero
  have hmagnitude : ofRatio false n d = zero ↔ roundRatio n d ≤ 0 := by
    rw [Nat.le_zero]
    constructor
    · intro h
      rw [← magnitude_ofRatio false, h]
      rfl
    · intro h
      rw [ofRatio, h]
      rfl
  have hbound : (1 / (2 ^ 1074 * 2) : ℚ) = 1 / 2 ^ 1074 / 2 := by rw [div_div]
  rw [hmagnitude, hzero, hhalf, hbound]
  generalize (1 / 2 ^ 1074 : ℚ) = b
  constructor
  · rintro (h | ⟨h, -⟩) <;> linarith
  · intro h
    rcases h.lt_or_eq with hlt | heq
    · exact .inl (by linarith)
    · exact .inr ⟨by linarith, rfl⟩

/-! ## Distances -/

/-- What lies on the near side of a middle is no farther off. -/
theorem abs_sub_le_of_middle {a r q : ℚ}
    (h : (a ≤ r ∧ 2 * q ≤ a + r) ∨ (r ≤ a ∧ a + r ≤ 2 * q)) : |a - q| ≤ |r - q| := by
  rcases h with ⟨hle, hmiddle⟩ | ⟨hle, hmiddle⟩
  · have hr : q ≤ r := by linarith
    rw [abs_of_nonneg (sub_nonneg.2 hr), abs_le]
    constructor <;> linarith
  · have hr : r ≤ q := by linarith
    rw [abs_of_nonpos (sub_nonpos.2 hr), abs_le]
    constructor <;> linarith

/-- What is equally far off and not the same lies on the other side. -/
theorem twice_eq_add_of_abs_eq {a r q : ℚ} (hne : r ≠ a) (h : |a - q| = |r - q|) :
    2 * q = a + r := by
  rcases abs_eq_abs.1 h with heq | heq
  · exact absurd (by linarith) hne
  · linarith

/-- **A value is off that of a magnitude by a whole step**: it is at the next
one or beyond, or at the one before or beyond, or there. -/
theorem toRat_cases (y : Binary64) (m : Nat) :
    valueOf (m + 1) ≤ y.toRat ∨ y.toRat = valueOf m ∨
      (m = 0 ∧ y.toRat ≤ 0) ∨ ∃ k, m = k + 1 ∧ y.toRat ≤ valueOf k := by
  have hmono := valueOf_strictMono.monotone
  have hvalue := valueOf_nonneg y.magnitude
  by_cases hnegative : y.negative
  · have hle : y.toRat ≤ 0 := by
      rw [toRat, if_pos hnegative]
      linarith
    cases m with
    | zero => exact .inr (.inr (.inl ⟨rfl, hle⟩))
    | succ k => exact .inr (.inr (.inr ⟨k, rfl, hle.trans (valueOf_nonneg k)⟩))
  · have htoRat : y.toRat = valueOf y.magnitude := by rw [toRat, if_neg hnegative, one_mul]
    rw [htoRat]
    rcases Nat.lt_trichotomy y.magnitude m with hlt | rfl | hgt
    · obtain ⟨k, rfl⟩ := Nat.exists_eq_add_one.2 (Nat.zero_lt_of_lt hlt)
      exact .inr (.inr (.inr ⟨k, rfl, hmono (Nat.le_of_lt_succ hlt)⟩))
    · exact .inr (.inl rfl)
    · exact .inl (hmono hgt)

theorem toRat_ofRatio : (ofRatio false n d).toRat = valueOf (roundRatio n d) := by
  rw [toRat, magnitude_ofRatio]
  exact one_mul _

/-- **Every other double lies beyond a middle of the one that is rounded to**,
and on a middle only if that one is even. -/
theorem middle_of_isFinite (hd : 0 < d) (hfinite : (ofRatio false n d).isFinite) {y : Binary64}
    (hne : y.toRat ≠ (ofRatio false n d).toRat) :
    (((ofRatio false n d).toRat ≤ y.toRat ∧ 2 * (n / d : ℚ) ≤ (ofRatio false n d).toRat + y.toRat) ∨
      (y.toRat ≤ (ofRatio false n d).toRat ∧
        (ofRatio false n d).toRat + y.toRat ≤ 2 * (n / d : ℚ))) ∧
      (2 * (n / d : ℚ) = (ofRatio false n d).toRat + y.toRat →
        (ofRatio false n d).magnitude % 2 = 0) := by
  rw [toRat_ofRatio] at hne ⊢
  rw [magnitude_ofRatio]
  rw [isFinite_ofRatio, decide_eq_true_eq] at hfinite
  have hquotient : 0 ≤ (n / d : ℚ) := by positivity
  obtain ⟨habove, habove_even⟩ := twice_le_middle hd hfinite
  have hstep := valueOf_strictMono (Nat.lt_succ_self (roundRatio n d))
  rcases toRat_cases y (roundRatio n d) with hnext | heq | ⟨hzero, hle⟩ | ⟨k, hk, hle⟩
  · exact ⟨.inl ⟨by linarith, by linarith⟩,
      fun heq => habove_even (by linarith only [heq, hnext, habove])⟩
  · exact absurd heq hne
  · rw [hzero, valueOf_zero] at hne ⊢
    exact ⟨.inr ⟨hle, by linarith⟩, fun _ => rfl⟩
  · obtain ⟨hbelow, hbelow_even⟩ := middle_le_twice hd hk (by omega)
    have hprevious := valueOf_strictMono (Nat.lt_succ_self k)
    rw [hk]
    exact ⟨.inr ⟨by linarith, by linarith⟩,
      fun heq => hbelow_even (by linarith only [heq, hle, hbelow])⟩

/-- **A quotient goes to the double nearest to it.** -/
theorem nearest_ofRatio (hd : 0 < d) : Nearest (n / d) (ofRatio false n d) where
  closest hfinite y _ := by
    by_cases heq : y.toRat = (ofRatio false n d).toRat
    · rw [heq]
    · exact abs_sub_le_of_middle (middle_of_isFinite hd hfinite heq).1
  even hfinite y _ hne h :=
    (middle_of_isFinite hd hfinite hne).2 (twice_eq_add_of_abs_eq hne h)
  infinite := isInfinite_ofRatio_iff false hd
  number := isNaN_ofRatio ..

/-- What lies between two values is closer to their middle than they are. -/
theorem abs_sub_lt_of_between {a b r q : ℚ} (hmiddle : 2 * q = a + b)
    (h : (a < r ∧ r < b) ∨ (b < r ∧ r < a)) : |r - q| < |a - q| := by
  rcases h with ⟨hlo, hhi⟩ | ⟨hlo, hhi⟩
  · rw [abs_of_neg (show a - q < 0 by linarith), abs_lt]
    constructor <;> linarith
  · rw [abs_of_pos (show 0 < a - q by linarith), abs_lt]
    constructor <;> linarith

/-- Doubles of one sign that are no neighbours have another one between
them. -/
theorem exists_between {x y : Binary64} (hsign : x.negative = y.negative) (hfinite : y.isFinite)
    (h : x.magnitude + 1 < y.magnitude) :
    ∃ z : Binary64, z.isFinite ∧
      ((x.toRat < z.toRat ∧ z.toRat < y.toRat) ∨ (y.toRat < z.toRat ∧ z.toRat < x.toRat)) := by
  have habove := valueOf_strictMono (Nat.lt_succ_self x.magnitude)
  have hbelow := valueOf_strictMono h
  rw [isFinite, decide_eq_true_eq] at hfinite
  refine ⟨⟨x.negative, x.magnitude + 1, h.trans y.bound⟩, decide_eq_true (h.trans hfinite), ?_⟩
  rw [toRat, toRat, toRat, ← hsign]
  by_cases hnegative : x.negative
  · rw [if_pos hnegative]
    exact .inr ⟨by linarith, by linarith⟩
  · rw [if_neg hnegative]
    exact .inl ⟨by linarith, by linarith⟩

/-- Of two doubles of one sign that are nearest to one value, neither is the
smaller: both would be even, and one between them closer. -/
theorem Nearest.not_lt {q : ℚ} {x y : Binary64} (hx : Nearest q x) (hy : Nearest q y)
    (hsign : x.negative = y.negative) (hfinite : x.isFinite) (hfinite' : y.isFinite) :
    ¬ x.magnitude < y.magnitude := by
  intro hlt
  have hvalue := valueOf_strictMono hlt
  have hne : y.toRat ≠ x.toRat := by
    rw [toRat, toRat, hsign]
    split <;> linarith
  have htie : |x.toRat - q| = |y.toRat - q| :=
    le_antisymm (hx.closest hfinite y hfinite') (hy.closest hfinite' x hfinite)
  have heven := hx.even hfinite y hfinite' hne htie
  have heven' := hy.even hfinite' x hfinite hne.symm htie.symm
  obtain ⟨z, hz, hbetween⟩ := exists_between hsign hfinite' (by omega)
  exact (abs_sub_lt_of_between (twice_eq_add_of_abs_eq hne htie) hbetween).not_ge
    (hx.closest hfinite z hz)

/-- **No two doubles of one sign are nearest to one value.** Two that tie are
both even, so there is another one between them. -/
theorem Nearest.unique {q : ℚ} {x y : Binary64} (hx : Nearest q x) (hy : Nearest q y)
    (hsign : x.negative = y.negative) : x = y := by
  refine eq_of_magnitude hsign ?_
  by_cases hinfinite : x.isInfinite
  · have hinfinite' : y.isInfinite := hy.infinite.2 (hx.infinite.1 hinfinite)
    rw [isInfinite, beq_iff_eq] at hinfinite hinfinite'
    rw [hinfinite, hinfinite']
  · have hinfinite' : ¬ y.isInfinite := fun h => hinfinite (hx.infinite.2 (hy.infinite.1 h))
    have hfinite : x.isFinite := isFinite_iff.2 ⟨hx.number, by simpa using hinfinite⟩
    have hfinite' : y.isFinite := isFinite_iff.2 ⟨hy.number, by simpa using hinfinite'⟩
    by_contra hne
    rcases Nat.lt_or_gt_of_ne hne with hlt | hgt
    · exact hx.not_lt hy hsign hfinite hfinite' hlt
    · exact hy.not_lt hx hsign.symm hfinite' hfinite hgt

/-- **Larger quotients go to no smaller double.** -/
theorem atMost_ofRatio {n' d' : Nat} (hd : 0 < d) (hd' : 0 < d') (h : (n / d : ℚ) ≤ n' / d') :
    (ofRatio false n d).AtMost (ofRatio false n' d') := by
  rw [div_le_div_iff₀ (by exact_mod_cast hd) (by exact_mod_cast hd')] at h
  have hmagnitude := roundRatio_mono hd hd' (by exact_mod_cast h)
  refine ⟨isNaN_ofRatio .., isNaN_ofRatio .., .inr ?_⟩
  by_cases hinfinite : (ofRatio false n' d').isInfinite
  · exact .inl ⟨hinfinite, rfl⟩
  · have hfinite' : (ofRatio false n' d').isFinite := by
      simp [isFinite_iff, hinfinite, isNaN_ofRatio]
    have hfinite : (ofRatio false n d).isFinite := by
      rw [isFinite_ofRatio, decide_eq_true_eq] at hfinite' ⊢
      omega
    refine .inr ⟨hfinite, hfinite', ?_⟩
    rw [toRat_ofRatio, toRat_ofRatio]
    exact valueOf_strictMono.monotone hmagnitude

end

end Binary64

end Abacus
