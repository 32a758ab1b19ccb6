import Mathlib.Data.Nat.Dist
import Moo.Proofs.Number.Legible

/-!
# Rounding to doubles

A quotient of naturals is rounded to the nearest natural number (`Binary64.roundDiv_le_iff`). So a
natural number is rounded to the nearest double, of two that are equally near to the one with the
even significand (`Binary64.nearest_rounded`), and becomes infinite from the middle between the
largest double and the next power of two on (`Binary64.truncate?_ofRatio_one`).
-/

namespace Moo.Binary64

theorem two_pow_add (m n : Nat) : Nat.pow 2 (m + n) = Nat.pow 2 m * Nat.pow 2 n := Nat.pow_add 2 m n

theorem two_pow_pos (n : Nat) : 0 < Nat.pow 2 n := Nat.two_pow_pos n

/-! ## Quotients -/

/-- The rounded quotient is at most `b` if the quotient is below the middle between `b` and the next
natural number, or lies in the middle and `b` is even. -/
theorem roundDiv_le_iff {num den : Nat} (hden : 0 < den) (b : Nat) :
    roundDiv num den ≤ b ↔
      2 * num < (2 * b + 1) * den ∨ 2 * num = (2 * b + 1) * den ∧ b % 2 = 0 := by
  have hsplit := Nat.div_add_mod' num den
  have hmod := Nat.mod_lt num hden
  unfold roundDiv
  rw [Nat.add_mul, Nat.mul_assoc, Nat.one_mul]
  generalize num / den = q at *
  generalize num % den = t at *
  dsimp only
  rcases Nat.lt_trichotomy q b with h | rfl | h
  · have hle : (q + 1) * den ≤ b * den := Nat.mul_le_mul_right den h
    rw [Nat.succ_mul] at hle
    split <;> omega
  · split
    · next hcond =>
      simp only [Bool.or_eq_true, Bool.and_eq_true, decide_eq_true_eq, beq_iff_eq] at hcond
      omega
    · next hcond =>
      simp only [Bool.or_eq_true, Bool.and_eq_true, decide_eq_true_eq, beq_iff_eq] at hcond
      omega
  · have hle : (b + 1) * den ≤ q * den := Nat.mul_le_mul_right den h
    rw [Nat.succ_mul] at hle
    split <;> omega

/-- The rounded quotient lies within half a unit of the quotient, and is even if it lies that
far. -/
theorem roundDiv_within {num den : Nat} (hden : 0 < den) :
    2 * Nat.dist num (roundDiv num den * den) < den ∨
      2 * Nat.dist num (roundDiv num den * den) = den ∧ roundDiv num den % 2 = 0 := by
  have hle := (roundDiv_le_iff hden (roundDiv num den)).mp (Nat.le_refl _)
  rw [Nat.add_mul, Nat.mul_assoc, Nat.one_mul] at hle
  unfold Nat.dist
  cases hq : roundDiv num den with
  | zero =>
    rw [hq] at hle
    omega
  | succ q =>
    have hgt : ¬ roundDiv num den ≤ q := by omega
    rw [roundDiv_le_iff hden, Nat.add_mul, Nat.mul_assoc, Nat.one_mul] at hgt
    rw [hq, Nat.succ_mul q] at hle
    rw [Nat.succ_mul q]
    omega

/-- No other multiple is nearer, and if another is as near then the quotient is even. -/
theorem roundDiv_nearest {num den j : Nat} (hden : 0 < den) (hj : j ≠ roundDiv num den) :
    Nat.dist num (roundDiv num den * den) < Nat.dist num (j * den) ∨
      Nat.dist num (roundDiv num den * den) = Nat.dist num (j * den) ∧
        roundDiv num den % 2 = 0 := by
  have hwithin := @roundDiv_within num den hden
  generalize roundDiv num den = q at *
  unfold Nat.dist at *
  rcases Nat.lt_or_gt_of_ne hj with h | h
  · have hle : (j + 1) * den ≤ q * den := Nat.mul_le_mul_right den h
    rw [Nat.succ_mul] at hle
    omega
  · have hle : (q + 1) * den ≤ j * den := Nat.mul_le_mul_right den h
    rw [Nat.succ_mul] at hle
    omega

theorem le_roundDiv {num den b : Nat} (hden : 0 < den) (h : b * den ≤ num) :
    b ≤ roundDiv num den := by
  by_contra hlt
  have hle : roundDiv num den ≤ b - 1 := by omega
  have hb : (b - 1 + 1) * den = b * den := by
    congr 1
    omega
  rw [Nat.succ_mul] at hb
  rw [roundDiv_le_iff hden, Nat.add_mul, Nat.mul_assoc, Nat.one_mul] at hle
  omega

theorem roundDiv_le {num den b : Nat} (hden : 0 < den) (h : num ≤ b * den) :
    roundDiv num den ≤ b := by
  rw [roundDiv_le_iff hden, Nat.add_mul, Nat.mul_assoc, Nat.one_mul]
  omega

theorem roundDiv_mul_right {num den c : Nat} (hc : 0 < c) :
    roundDiv (num * c) (den * c) = roundDiv num den := by
  unfold roundDiv
  rw [Nat.mul_div_mul_right _ _ hc, Nat.mul_mod_mul_right, ← Nat.mul_assoc]
  simp only [Nat.mul_lt_mul_right hc, beq_eq_decide, Nat.mul_left_inj (Nat.ne_of_gt hc)]

theorem roundDiv_one (num : Nat) : roundDiv num 1 = num := by
  unfold roundDiv
  rw [Nat.div_one, Nat.mod_one]
  rfl

/-! ## Natural numbers that are doubles -/

variable {n k u : Nat}

/-- The scale is a power of two. Its exponent is kept apart, so that the power is not computed. -/
theorem scale_eq : ∃ c, c = 1074 ∧ scale = Nat.pow 2 c := by
  refine ⟨1074, rfl, ?_⟩
  unfold scale
  exact Eq.refl _

def IsDouble (n : Nat) : Prop :=
  ∃ significand unit,
    significand < Nat.pow 2 53 ∧ unit ≤ 2045 ∧ scaled significand unit = n * scale

theorem isDouble_iff :
    IsDouble n ↔ ∃ m e, m < Nat.pow 2 53 ∧ e ≤ 971 ∧ n = m * Nat.pow 2 e := by
  obtain ⟨c, hc, hscale⟩ := scale_eq
  unfold IsDouble scaled
  rw [hscale]
  constructor
  · rintro ⟨m, unit, hm, hunit, hvalue⟩
    rcases Nat.le_total c unit with h | h
    · obtain ⟨e, rfl⟩ := Nat.exists_eq_add_of_le' h
      rw [two_pow_add, ← Nat.mul_assoc] at hvalue
      exact ⟨m, e, hm, by omega, (Nat.eq_of_mul_eq_mul_right (two_pow_pos c) hvalue).symm⟩
    · obtain ⟨d, hd⟩ := Nat.exists_eq_add_of_le' h
      rw [hd, two_pow_add, ← Nat.mul_assoc] at hvalue
      obtain rfl := Nat.eq_of_mul_eq_mul_right (two_pow_pos unit) hvalue
      refine ⟨n, 0, Nat.lt_of_le_of_lt ?_ hm, Nat.zero_le _, (Nat.mul_one n).symm⟩
      exact Nat.le_mul_of_pos_right n (two_pow_pos d)
  · rintro ⟨m, e, hm, he, rfl⟩
    refine ⟨m, e + c, hm, by omega, ?_⟩
    rw [two_pow_add, Nat.mul_assoc]

/-- Above `2^(52 + u)` doubles are multiples of `2^u`. -/
theorem IsDouble.multiple (h : IsDouble k) (u : Nat) :
    (∃ j, k = j * Nat.pow 2 u) ∨ 0 < u ∧ k < Nat.pow 2 (52 + u) := by
  obtain ⟨m, e, hm, -, rfl⟩ := isDouble_iff.mp h
  rcases Nat.lt_or_ge e u with hlt | hle
  · refine .inr ⟨by omega, ?_⟩
    calc m * Nat.pow 2 e < Nat.pow 2 53 * Nat.pow 2 e := Nat.mul_lt_mul_of_pos_right hm (two_pow_pos e)
      _ = Nat.pow 2 (53 + e) := (two_pow_add 53 e).symm
      _ ≤ Nat.pow 2 (52 + u) := Number.pow_le_pow (by decide) (by omega)
  · obtain ⟨d, rfl⟩ := Nat.exists_eq_add_of_le' hle
    rw [two_pow_add, ← Nat.mul_assoc]
    exact .inl ⟨_, rfl⟩

/-! ## The nearest double -/

/-- The double `r` is nearest to the natural number. If another is as near, then the significand of
`r`, which has 53 binary digits, is even. -/
structure Nearest (n r : Nat) : Prop where
  double : IsDouble r
  nearest : ∀ k, IsDouble k → Nat.dist n r ≤ Nat.dist n k
  even : ∀ k, IsDouble k → Nat.dist n k = Nat.dist n r → k ≠ r →
    ∃ m e, Nat.pow 2 52 ≤ m ∧ m < Nat.pow 2 53 ∧ m % 2 = 0 ∧ r = m * Nat.pow 2 e

/-- A natural number is nearest to itself alone if it is a double. -/
theorem Nearest.eq_iff {n r : Nat} (h : Nearest n r) : r = n ↔ IsDouble n := by
  constructor
  · rintro rfl
    exact h.double
  · intro hn
    have hle := h.nearest n hn
    rw [Nat.dist_self] at hle
    exact (Nat.eq_of_dist_eq_zero (Nat.le_zero.mp hle)).symm

/-- The binary digits of a natural number after the first 53. -/
def excess (n : Nat) : Nat := n.log2 - 52

/-- A natural number with no more than 53 binary digits kept. -/
def rounded (n : Nat) : Nat := roundDiv n (Nat.pow 2 (excess n)) * Nat.pow 2 (excess n)

/-- A number with an excess has at least 53 digits, and its first 53 are what is rounded. -/
theorem excess_bounds (n : Nat) :
    (0 < excess n → Nat.pow 2 (52 + excess n) ≤ n) ∧ n < Nat.pow 2 (53 + excess n) := by
  unfold excess
  constructor
  · intro h
    have hn : n ≠ 0 := by
      rintro rfl
      simp at h
    exact Nat.le_trans (Number.pow_le_pow (by decide) (by omega)) (Nat.log2_self_le hn)
  · exact Nat.lt_of_lt_of_le Nat.lt_log2_self (Number.pow_le_pow (by decide) (by omega))

/-- The last binary digit that is kept may carry up to the one before the first. -/
theorem significand_bounds (n : Nat) :
    (0 < excess n → Nat.pow 2 52 ≤ roundDiv n (Nat.pow 2 (excess n))) ∧
      roundDiv n (Nat.pow 2 (excess n)) ≤ Nat.pow 2 53 := by
  obtain ⟨hlow, hhigh⟩ := excess_bounds n
  rw [two_pow_add] at hlow hhigh
  exact ⟨fun h => le_roundDiv (two_pow_pos _) (hlow h),
    roundDiv_le (two_pow_pos _) (Nat.le_of_lt hhigh)⟩

/-- Rounding keeps the number of digits, or reaches the next power of two. -/
theorem rounded_bounds (n : Nat) :
    (0 < excess n → Nat.pow 2 (52 + excess n) ≤ rounded n) ∧
      rounded n ≤ Nat.pow 2 (53 + excess n) := by
  obtain ⟨hleast, hmost⟩ := significand_bounds n
  rw [two_pow_add, two_pow_add]
  exact ⟨fun h => Nat.mul_le_mul_right _ (hleast h), Nat.mul_le_mul_right _ hmost⟩

theorem rounded_of_no_excess (h : excess n = 0) : rounded n = n := by
  unfold rounded
  rw [h]
  show roundDiv n 1 * 1 = n
  rw [roundDiv_one, Nat.mul_one]

/-- No double is nearer to a number than the rounded one, and if another is as near, then that is
even. -/
theorem rounded_nearest (hk : IsDouble k) (hne : k ≠ rounded n) :
    Nat.dist n (rounded n) < Nat.dist n k ∨
      Nat.dist n (rounded n) = Nat.dist n k ∧ 0 < excess n ∧
        roundDiv n (Nat.pow 2 (excess n)) % 2 = 0 := by
  rcases Nat.eq_zero_or_pos (excess n) with h0 | hpos
  · rw [rounded_of_no_excess h0] at hne ⊢
    rw [Nat.dist_self]
    exact .inl (Nat.dist_pos_of_ne hne.symm)
  · have hgrid : ∀ j, j * Nat.pow 2 (excess n) ≠ rounded n → _ := fun j hj =>
      roundDiv_nearest (two_pow_pos (excess n)) fun h => hj (congrArg (· * _) h)
    obtain ⟨j, rfl⟩ | ⟨-, hlt⟩ := hk.multiple (excess n)
    · exact (hgrid j hne).imp_right fun ⟨hdist, heven⟩ => ⟨hdist, hpos, heven⟩
    · -- the least number with as many digits lies between, and is a multiple
      have hlow := (excess_bounds n).1 hpos
      have hbetween : Nat.dist n (rounded n) ≤ Nat.dist n (Nat.pow 2 (52 + excess n)) := by
        rw [two_pow_add]
        by_cases hr : Nat.pow 2 52 * Nat.pow 2 (excess n) = rounded n
        · rw [hr]
        · exact (hgrid _ hr).elim Nat.le_of_lt fun h => Nat.le_of_eq h.1
      left
      unfold Nat.dist at *
      omega

/-- Rounding reaches a power of two from the middle between it and the largest number of 53 digits
below it. -/
theorem rounded_lt_iff (n s : Nat) :
    rounded n < Nat.pow 2 (54 + s) ↔ n < Nat.pow 2 (54 + s) - Nat.pow 2 s := by
  obtain ⟨hlow, hhigh⟩ := excess_bounds n
  obtain ⟨hleast, hmost⟩ := rounded_bounds n
  have hs := two_pow_pos s
  have hpow : Nat.pow 2 (54 + s) = Nat.pow 2 54 * Nat.pow 2 s := two_pow_add 54 s
  have h53 : Nat.pow 2 (53 + s) = Nat.pow 2 53 * Nat.pow 2 s := two_pow_add 53 s
  have hp54 : Nat.pow 2 54 = 18014398509481984 := rfl
  have hp53 : Nat.pow 2 53 = 9007199254740992 := rfl
  rw [hp54] at hpow
  rw [hp53] at h53
  rcases Nat.lt_trichotomy (excess n) (s + 1) with h | h | h
  · have hn : n < Nat.pow 2 (53 + s) :=
      Nat.lt_of_lt_of_le hhigh (Number.pow_le_pow (by decide) (by omega))
    have hr : rounded n ≤ Nat.pow 2 (53 + s) :=
      Nat.le_trans hmost (Number.pow_le_pow (by decide) (by omega))
    omega
  · have hunit : Nat.pow 2 (excess n) = 2 * Nat.pow 2 s := by
      rw [h, two_pow_add, Nat.mul_comm]
    have hq : rounded n < Nat.pow 2 (54 + s) ↔
        roundDiv n (Nat.pow 2 (excess n)) ≤ Nat.pow 2 53 - 1 := by
      have htop : Nat.pow 2 (54 + s) = Nat.pow 2 53 * Nat.pow 2 (excess n) := by
        rw [hunit, hpow, hp53]
        omega
      unfold rounded
      rw [htop, Nat.mul_lt_mul_right (two_pow_pos _), hp53]
      omega
    rw [hq, roundDiv_le_iff (two_pow_pos _), hunit, hp53]
    omega
  · have hn : Nat.pow 2 (54 + s) ≤ n :=
      Nat.le_trans (Number.pow_le_pow (by decide) (by omega)) (hlow (by omega))
    have hr : Nat.pow 2 (54 + s) ≤ rounded n :=
      Nat.le_trans (Number.pow_le_pow (by decide) (by omega)) (hleast (by omega))
    omega

/-! ## Doubles that stand for natural numbers -/

theorem truncate?_fit (significand unit : Nat) :
    (fit false significand unit).truncate? =
      if unit ≤ 2045 then some ((scaled significand unit / scale : Nat) : Int) else none := by
  unfold fit
  split
  · unfold truncate?
    rfl
  · rfl

/-- A significand makes a finite double if what it stands for has not too many digits, none of them
left out but by rounding. -/
theorem truncate?_carry {significand unit top : Nat} (htop : top = 2098)
    (hle : significand ≤ Nat.pow 2 53) (hdigits : 2045 < unit → Nat.pow 2 52 ≤ significand) :
    (carry false significand unit).truncate? =
      if scaled significand unit < Nat.pow 2 top
      then some ((scaled significand unit / scale : Nat) : Int) else none := by
  unfold carry
  split
  · next hcarry =>
    have hscaled : scaled (Nat.pow 2 52) (unit + 1) = scaled significand unit := by
      unfold scaled
      rw [hcarry, ← two_pow_add, ← two_pow_add]
      congr 1
      omega
    have hfinite : unit + 1 ≤ 2045 ↔ scaled significand unit < Nat.pow 2 top := by
      rw [← hscaled]
      unfold scaled
      rw [← two_pow_add]
      exact Iff.trans (by omega) (Nat.pow_lt_pow_iff_right (by decide)).symm
    rw [truncate?_fit, hscaled]
    exact if_congr hfinite rfl rfl
  · next hcarry =>
    have hfinite : unit ≤ 2045 ↔ scaled significand unit < Nat.pow 2 top := by
      unfold scaled
      constructor
      · intro h
        calc significand * Nat.pow 2 unit < Nat.pow 2 53 * Nat.pow 2 unit :=
              Nat.mul_lt_mul_of_pos_right (by omega) (two_pow_pos unit)
          _ = Nat.pow 2 (53 + unit) := (two_pow_add 53 unit).symm
          _ ≤ Nat.pow 2 top := Number.pow_le_pow (by decide) (by omega)
      · intro h
        by_contra hunit
        refine Nat.lt_irrefl _ (Nat.lt_of_lt_of_le h ?_)
        calc Nat.pow 2 top ≤ Nat.pow 2 (52 + unit) := Number.pow_le_pow (by decide) (by omega)
          _ = Nat.pow 2 52 * Nat.pow 2 unit := two_pow_add 52 unit
          _ ≤ significand * Nat.pow 2 unit := Nat.mul_le_mul_right _ (hdigits (by omega))
    rw [truncate?_fit]
    exact if_congr hfinite rfl rfl

theorem log2_mul_two_pow (hn : n ≠ 0) (c : Nat) : (n * Nat.pow 2 c).log2 = n.log2 + c := by
  have hpos : n * Nat.pow 2 c ≠ 0 := Nat.mul_ne_zero hn (Nat.ne_of_gt (two_pow_pos c))
  rw [Nat.log2_eq_iff hpos]
  constructor
  · rw [Nat.pow_add]
    exact Nat.mul_le_mul_right _ (Nat.log2_self_le hn)
  · rw [Nat.add_right_comm, Nat.pow_add]
    exact Nat.mul_lt_mul_of_pos_right Nat.lt_log2_self (two_pow_pos c)

theorem scaled_lastUnit (hn : n ≠ 0) :
    let significand := roundDiv (n * scale) (1 * Nat.pow 2 (lastUnit n 1))
    scaled significand (lastUnit n 1) = rounded n * scale ∧ significand ≤ Nat.pow 2 53 ∧
      (2045 < lastUnit n 1 → Nat.pow 2 52 ≤ significand) := by
  obtain ⟨c, hc, hscale⟩ := scale_eq
  obtain ⟨hleast, hmost⟩ := significand_bounds n
  have hlast : lastUnit n 1 = n.log2 + c - 52 := by
    unfold lastUnit
    rw [Nat.div_one, hscale, log2_mul_two_pow hn]
  intro significand
  rcases Nat.le_total 52 n.log2 with h | h
  · have hunit : lastUnit n 1 = excess n + c := by
      unfold excess
      omega
    have hsignificand : significand = roundDiv n (Nat.pow 2 (excess n)) := by
      show roundDiv (n * scale) (1 * Nat.pow 2 (lastUnit n 1)) = _
      rw [hunit, two_pow_add, hscale, Nat.one_mul, roundDiv_mul_right (two_pow_pos c)]
    rw [hsignificand, hunit]
    refine ⟨?_, hmost, fun hlt => hleast (by omega)⟩
    unfold scaled rounded
    rw [two_pow_add, hscale, Nat.mul_assoc]
  · -- the digits all fit, and zeros are put after them
    have hfit : rounded n = n := rounded_of_no_excess (by unfold excess; omega)
    have hunit : lastUnit n 1 + (52 - n.log2) = c := by omega
    have hsignificand : significand = n * Nat.pow 2 (52 - n.log2) := by
      show roundDiv (n * scale) (1 * Nat.pow 2 (lastUnit n 1)) = _
      rw [hscale, ← hunit, Nat.add_comm, two_pow_add, ← Nat.mul_assoc,
        roundDiv_mul_right (two_pow_pos _), roundDiv_one]
    rw [hsignificand, hfit]
    refine ⟨?_, ?_, fun hlt => absurd hlt (by omega)⟩
    · unfold scaled
      rw [Nat.mul_assoc, ← two_pow_add, hscale, ← hunit, Nat.add_comm]
    · calc n * Nat.pow 2 (52 - n.log2)
          ≤ Nat.pow 2 (n.log2 + 1) * Nat.pow 2 (52 - n.log2) :=
            Nat.mul_le_mul_right _ (Nat.le_of_lt Nat.lt_log2_self)
        _ = Nat.pow 2 53 := by
          rw [← two_pow_add, show n.log2 + 1 + (52 - n.log2) = 53 by omega]

/-- The middle between the largest double and the next power of two. -/
def overflow : Nat := Nat.pow 2 1024 - Nat.pow 2 970

theorem overflow_eq :
    ∃ s, s = 970 ∧ ∃ t, t = 54 + s ∧ overflow = Nat.pow 2 t - Nat.pow 2 s := by
  refine ⟨970, rfl, 1024, rfl, ?_⟩
  unfold overflow
  exact Eq.refl _

theorem IsDouble.lt_overflow (h : IsDouble n) : n < overflow := by
  obtain ⟨s, hs, _, rfl, hoverflow⟩ := overflow_eq
  obtain ⟨m, e, hm, he, rfl⟩ := isDouble_iff.mp h
  have hunit : Nat.pow 2 e ≤ 2 * Nat.pow 2 s := by
    rw [Nat.mul_comm]
    exact Number.pow_le_pow (by decide) (show e ≤ s + 1 by omega)
  have hvalue : m * Nat.pow 2 e ≤ (Nat.pow 2 53 - 1) * (2 * Nat.pow 2 s) :=
    Nat.mul_le_mul (by omega) hunit
  have hp53 : Nat.pow 2 53 = 9007199254740992 := rfl
  have hp54 : Nat.pow 2 54 = 18014398509481984 := rfl
  have hs := two_pow_pos s
  rw [hoverflow, two_pow_add, hp54]
  rw [hp53] at hvalue
  omega

/-- A natural number becomes the rounded one if it is below the middle. -/
theorem truncate?_ofRatio_one (hn : n ≠ 0) :
    (ofRatio false n 1).truncate? = if n < overflow then some (rounded n : Int) else none := by
  obtain ⟨c, hc, hscale⟩ := scale_eq
  obtain ⟨s, hs, _, rfl, hoverflow⟩ := overflow_eq
  obtain ⟨hscaled, hle, hdigits⟩ := scaled_lastUnit hn
  have hpos : 0 < scale := hscale ▸ two_pow_pos c
  have hlimit : Nat.pow 2 (54 + s + c) = Nat.pow 2 (54 + s) * scale := by rw [two_pow_add, hscale]
  unfold ofRatio
  rw [truncate?_carry (show 54 + s + c = 2098 by omega) hle hdigits, hscaled, hlimit,
    Nat.mul_div_cancel _ hpos, hoverflow]
  exact if_congr ((Nat.mul_lt_mul_right hpos).trans (rounded_lt_iff n s)) rfl rfl

/-- The rounded number with a significand of 53 digits, for which the carry is one digit more. -/
theorem rounded_eq (h : 0 < excess n) :
    ∃ m e, Nat.pow 2 52 ≤ m ∧ m < Nat.pow 2 53 ∧ rounded n = m * Nat.pow 2 e ∧
      (roundDiv n (Nat.pow 2 (excess n)) % 2 = 0 → m % 2 = 0) := by
  obtain ⟨hleast, hmost⟩ := significand_bounds n
  by_cases hcarry : roundDiv n (Nat.pow 2 (excess n)) = Nat.pow 2 53
  · refine ⟨Nat.pow 2 52, excess n + 1, Nat.le_refl _, by decide, ?_, fun _ => by decide⟩
    unfold rounded
    rw [hcarry, ← two_pow_add, ← two_pow_add]
    congr 1
    omega
  · exact ⟨_, excess n, hleast h, by omega, rfl, id⟩

/-- A natural number below the middle is nearest to the rounded one. -/
theorem nearest_rounded (h : n < overflow) : Nearest n (rounded n) where
  double := by
    obtain ⟨s, hs, _, rfl, hoverflow⟩ := overflow_eq
    rw [isDouble_iff]
    rcases Nat.eq_zero_or_pos (excess n) with h0 | hpos
    · have hn := (excess_bounds n).2
      rw [h0] at hn
      exact ⟨n, 0, hn, Nat.zero_le _, (rounded_of_no_excess h0).trans (Nat.mul_one n).symm⟩
    · obtain ⟨m, e, hleast, hmost, hr, -⟩ := rounded_eq hpos
      refine ⟨m, e, hmost, ?_, hr⟩
      by_contra he
      have hlt : rounded n < Nat.pow 2 (54 + s) := (rounded_lt_iff n s).mpr (hoverflow ▸ h)
      refine Nat.lt_irrefl _ (Nat.lt_of_lt_of_le hlt ?_)
      calc Nat.pow 2 (54 + s) ≤ Nat.pow 2 (52 + e) := Number.pow_le_pow (by decide) (by omega)
        _ = Nat.pow 2 52 * Nat.pow 2 e := two_pow_add 52 e
        _ ≤ rounded n := hr ▸ Nat.mul_le_mul_right _ hleast
  nearest k hk := by
    by_cases hne : k = rounded n
    · rw [hne]
    · exact (rounded_nearest hk hne).elim Nat.le_of_lt fun h => Nat.le_of_eq h.1
  even k hk hdist hne := by
    obtain hlt | ⟨-, hpos, heven⟩ := rounded_nearest hk hne
    · omega
    · obtain ⟨m, e, hleast, hmost, hr, hm⟩ := rounded_eq hpos
      exact ⟨m, e, hleast, hmost, hm heven, hr⟩

end Moo.Binary64
