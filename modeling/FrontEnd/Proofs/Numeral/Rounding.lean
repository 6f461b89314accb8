import FrontEnd.Numeral.Decimal
import Mathlib.Algebra.Order.Field.Power
import Mathlib.Algebra.Order.Field.Rat
import Mathlib.Data.Nat.Cast.Order.Field
import Mathlib.Tactic.Linarith
import Mathlib.Tactic.Positivity
import Mathlib.Tactic.Ring

/-!
# Rounding

A count of least numbers rounds to the magnitude closest to it, and to the even one of two that are
equally close (`Binary64.Rounds`). Here magnitudes go on beyond the infinite one as if exponents had
no bound. So a number rounds to an infinity exactly if it is at least half way from the greatest
finite number to the next power of two (`Binary64.overflow`).

Main statements: `Binary64.rounds_nearest`, and `Decimal.exists_rounds` for numerals.
-/

namespace FrontEnd

namespace Binary64

/-! ## Steps -/

/-- The number of significands for one exponent, written out. -/
lemma exponentUnit_eq : exponentUnit = 4503599627370496 := rfl

/-- The least numbers are as many steps from zero as their rank. -/
lemma steps_of_lt {r : ℕ} (lt : r < exponentUnit) : steps r = r := by
  simp only [steps, Nat.div_eq_of_lt lt, Nat.mod_eq_of_lt lt, if_true]

/-- For each greater exponent the steps are twice as long. -/
lemma steps_succ {e f : ℕ} (lt : f < exponentUnit) :
    steps ((e + 1) * exponentUnit + f) = (exponentUnit + f) * 2 ^ e := by
  have exponent : ((e + 1) * exponentUnit + f) / exponentUnit = e + 1 := by
    rw [exponentUnit_eq] at *
    omega
  have fraction : ((e + 1) * exponentUnit + f) % exponentUnit = f := by
    rw [exponentUnit_eq] at *
    omega
  simp only [steps, exponent, fraction, Nat.succ_ne_zero, if_false, Nat.add_sub_cancel, Nat.pow_eq]

/-- A magnitude with exponent `e` stands for a multiple of `2 ^ e`. The fraction with its leading
bit may be one too many, since it carries into the exponent. -/
lemma steps_scaled {e r : ℕ} (normal : e = 0 ∨ exponentUnit ≤ r) (le : r ≤ 2 * exponentUnit) :
    steps (e * exponentUnit + r) = r * 2 ^ e := by
  rcases Nat.lt_or_ge r exponentUnit with small | large
  · obtain rfl : e = 0 := by omega
    rw [Nat.zero_mul, Nat.zero_add, steps_of_lt small, pow_zero, Nat.mul_one]
  · obtain ⟨f, rfl⟩ := Nat.exists_eq_add_of_le large
    rcases Nat.lt_or_ge f exponentUnit with lt | ge
    · have parts : e * exponentUnit + (exponentUnit + f) = (e + 1) * exponentUnit + f := by ring
      rw [parts, steps_succ lt]
    · obtain rfl : f = exponentUnit := by omega
      have parts : e * exponentUnit + (exponentUnit + exponentUnit) =
          (e + 1 + 1) * exponentUnit + 0 := by ring
      have unit : 0 < exponentUnit := by decide
      rw [parts, steps_succ unit]
      ring

/-- Every magnitude has an exponent and a fraction, which has its leading bit unless the exponent is
zero. -/
lemma exists_scaled (m : ℕ) : ∃ e r, m = e * exponentUnit + r ∧
    (e = 0 ∨ exponentUnit ≤ r) ∧ r < 2 * exponentUnit := by
  rw [exponentUnit_eq]
  rcases Nat.lt_or_ge m 4503599627370496 with small | large
  · exact ⟨0, m, by omega, .inl rfl, by omega⟩
  · exact ⟨m / 4503599627370496 - 1, 4503599627370496 + m % 4503599627370496, by omega,
      .inr (by omega), by omega⟩

/-- A greater rank is a greater number. -/
lemma steps_strictMono : StrictMono steps := by
  apply strictMono_nat_of_lt_succ
  intro m
  obtain ⟨e, r, rfl, normal, lt⟩ := exists_scaled m
  rw [steps_scaled normal lt.le, add_assoc, steps_scaled (by omega) (by omega)]
  exact Nat.mul_lt_mul_of_pos_right (Nat.lt_succ_self r) (by positivity)

/-- A magnitude stands for a multiple of `2 ^ e`, or its exponent is smaller and it stands for less
than any that has exponent `e`. -/
lemma steps_grid (e k : ℕ) :
    (∃ j : ℕ, steps k = j * 2 ^ e) ∨ e ≠ 0 ∧ steps k < exponentUnit * 2 ^ e := by
  obtain ⟨f, r, rfl, normal, lt⟩ := exists_scaled k
  rw [steps_scaled normal lt.le]
  rcases Nat.lt_or_ge f e with below | above
  · refine .inr ⟨Nat.ne_zero_of_lt below, ?_⟩
    calc r * 2 ^ f < 2 * exponentUnit * 2 ^ f := Nat.mul_lt_mul_of_pos_right lt (by positivity)
      _ = exponentUnit * 2 ^ (f + 1) := by ring
      _ ≤ exponentUnit * 2 ^ e := Nat.mul_le_mul_left _ (Nat.pow_le_pow_right two_pos below)
  · refine .inl ⟨r * 2 ^ (f - e), ?_⟩
    rw [mul_assoc, ← pow_add, Nat.sub_add_cancel above]

/-! ## Rounding to whole numbers -/

/-- A rounded quotient is the quotient or the next number. -/
lemma roundDiv_bounds (num den : ℕ) :
    num / den ≤ roundDiv num den ∧ roundDiv num den ≤ num / den + 1 := by
  unfold roundDiv
  dsimp only
  split <;> omega

/-- A quotient is rounded by at most one half, and by one half only to an even number. -/
lemma roundDiv_near (num : ℕ) {den : ℕ} (pos : 0 < den) :
    |(roundDiv num den : ℚ) - num / den| ≤ 1 / 2 ∧
      (|(roundDiv num den : ℚ) - num / den| = 1 / 2 → Even (roundDiv num den)) := by
  have pos' : (0 : ℚ) < den := Nat.cast_pos.mpr pos
  obtain ⟨part, hp⟩ : ∃ part : ℚ, part = (num % den : ℕ) / den := ⟨_, rfl⟩
  have whole : (num : ℚ) / den = (num / den : ℕ) + part := by
    rw [hp, div_eq_iff pos'.ne', add_mul, div_mul_cancel₀ _ pos'.ne']
    exact_mod_cast (Nat.div_add_mod' num den).symm
  have nonneg : 0 ≤ part := by
    rw [hp]
    positivity
  have lt_one : part < 1 := by
    rw [hp, div_lt_one pos']
    exact_mod_cast Nat.mod_lt num pos
  have below : 2 * (num % den) < den ↔ part < 1 / 2 := by
    rw [hp, div_lt_div_iff₀ pos' two_pos, one_mul, mul_comm]
    exact_mod_cast Iff.rfl
  have half : 2 * (num % den) = den ↔ part = 1 / 2 := by
    rw [hp, div_eq_div_iff pos'.ne' two_ne_zero, one_mul, mul_comm]
    exact_mod_cast Iff.rfl
  simp only [roundDiv, below, half, whole]
  split_ifs with down
  · rw [sub_add_cancel_left, abs_neg, abs_of_nonneg nonneg]
    refine ⟨down.elim le_of_lt fun tie => tie.1.le, fun tie => ?_⟩
    exact Nat.even_iff.mpr (down.resolve_left tie.not_lt).2
  · rw [not_or, not_lt, not_and] at down
    rw [Nat.cast_add, Nat.cast_one, add_sub_add_left_eq_sub, abs_of_pos (sub_pos.mpr lt_one)]
    refine ⟨by linarith, fun tie => ?_⟩
    have odd := down.2 (by linarith)
    exact Nat.even_iff.mpr (by omega)

/-- What is at most one half away from a number has no other whole number closer to it. -/
lemma half_le_of_ne {r j : ℕ} {t : ℚ} (near : |(r : ℚ) - t| ≤ 1 / 2) (ne : j ≠ r) :
    1 / 2 ≤ |(j : ℚ) - t| := by
  have apart : (1 : ℚ) ≤ |(r : ℚ) - j| := by
    have whole : (1 : ℤ) ≤ |(r : ℤ) - j| := Int.one_le_abs (by omega)
    exact_mod_cast whole
  have through := abs_sub_le (r : ℚ) t j
  rw [abs_sub_comm t] at through
  linarith

/-! ## Rounding to magnitudes -/

/-- A count of least numbers rounds to a magnitude: no other one is closer, and any that is equally
close leaves it to the even one. -/
structure Rounds (count : ℚ) (m : ℕ) : Prop where
  closest (k : ℕ) : |(steps m : ℚ) - count| ≤ |(steps k : ℚ) - count|
  even {k : ℕ} : k ≠ m → |(steps k : ℚ) - count| = |(steps m : ℚ) - count| → Even m

/-- The fraction of the nearest magnitude is rounded at its exponent, which is zero or gives the
fraction its leading bit. -/
lemma exists_nearest (num den : ℕ) :
    ∃ e, nearest num den = e * exponentUnit + roundDiv num (den * 2 ^ e) ∧
      steps (nearest num den) = roundDiv num (den * 2 ^ e) * 2 ^ e ∧
      (e ≠ 0 → ((exponentUnit * 2 ^ e : ℕ) : ℚ) ≤ num / den) := by
  obtain ⟨e, he⟩ : ∃ e, e = (num / den).log2 - fractionBits := ⟨_, rfl⟩
  have magnitude : nearest num den = e * exponentUnit + roundDiv num (den * 2 ^ e) := by
    rw [he]
    rfl
  have bits : fractionBits = 52 := rfl
  have unit : exponentUnit = 2 ^ 52 := rfl
  have lower : e ≠ 0 → exponentUnit * 2 ^ e ≤ num / den := by
    intro ne
    have nonzero : num / den ≠ 0 := by
      intro zero
      rw [zero, Nat.log2_zero] at he
      omega
    calc exponentUnit * 2 ^ e = 2 ^ (num / den).log2 := by
          rw [unit, ← pow_add]
          congr 1
          omega
      _ ≤ num / den := Nat.log2_self_le nonzero
  have upper : num / den < 2 * exponentUnit * 2 ^ e := by
    calc num / den < 2 ^ ((num / den).log2 + 1) := Nat.lt_log2_self
      _ ≤ 2 ^ (1 + 52 + e) := Nat.pow_le_pow_right two_pos (by omega)
      _ = 2 * exponentUnit * 2 ^ e := by rw [pow_add, pow_add, pow_one, unit]
  have quotient : num / (den * 2 ^ e) = num / den / 2 ^ e := (Nat.div_div_eq_div_mul _ _ _).symm
  obtain ⟨floor, ceil⟩ := roundDiv_bounds num (den * 2 ^ e)
  rw [quotient] at floor ceil
  refine ⟨e, magnitude, ?_, fun ne => ?_⟩
  · rw [magnitude]
    apply steps_scaled
    · by_cases zero : e = 0
      · exact .inl zero
      · exact .inr (((Nat.le_div_iff_mul_le (by positivity)).mpr (lower zero)).trans floor)
    · exact ceil.trans ((Nat.div_lt_iff_lt_mul (by positivity)).mpr upper)
  · exact (Nat.cast_le.mpr (lower ne)).trans Nat.cast_div_le

/-- The nearest magnitude is the one that a quotient of counts rounds to. -/
lemma rounds_nearest (num : ℕ) {den : ℕ} (pos : 0 < den) :
    Rounds (num / den) (nearest num den) := by
  obtain ⟨e, magnitude, count, normal⟩ := exists_nearest num den
  obtain ⟨near, tie⟩ := roundDiv_near num (by positivity : 0 < den * 2 ^ e)
  generalize roundDiv num (den * 2 ^ e) = r at *
  generalize nearest num den = m at *
  have unit : (0 : ℚ) < 2 ^ e := by positivity
  -- On the grid of the exponent, distances are those between a whole number and a quotient.
  have grid : ∀ j : ℕ, |((j * 2 ^ e : ℕ) : ℚ) - num / den| =
      |(j : ℚ) - num / (den * 2 ^ e : ℕ)| * 2 ^ e := by
    intro j
    rw [← abs_of_pos unit, ← abs_mul, sub_mul, Nat.cast_mul, Nat.cast_mul, Nat.cast_pow,
      Nat.cast_ofNat, ← div_div, div_mul_cancel₀ _ unit.ne']
  have closest : ∀ j : ℕ, |(steps m : ℚ) - num / den| ≤ |((j * 2 ^ e : ℕ) : ℚ) - num / den| := by
    intro j
    rw [count, grid, grid]
    apply mul_le_mul_of_nonneg_right _ unit.le
    by_cases same : j = r
    · rw [same]
    · exact near.trans (half_le_of_ne near same)
  have below : ∀ k, e ≠ 0 → steps k < exponentUnit * 2 ^ e →
      |(steps m : ℚ) - num / den| < |(steps k : ℚ) - num / den| := by
    intro k ne lt
    have lt' : (steps k : ℚ) < (exponentUnit * 2 ^ e : ℕ) := Nat.cast_lt.mpr lt
    have le := normal ne
    have first := closest exponentUnit
    rw [abs_of_nonpos (sub_nonpos.mpr le)] at first
    rw [abs_of_neg (sub_neg.mpr (lt'.trans_le le))]
    linarith
  constructor
  · intro k
    rcases steps_grid e k with ⟨j, hj⟩ | ⟨ne, lt⟩
    · rw [hj]
      exact closest j
    · exact (below k ne lt).le
  · intro k ne equal
    rcases steps_grid e k with ⟨j, hj⟩ | ⟨ne, lt⟩
    · have other : j ≠ r := by
        intro same
        rw [same, ← count] at hj
        exact ne (steps_strictMono.injective hj)
      rw [hj, count, grid, grid] at equal
      have half : |(r : ℚ) - num / (den * 2 ^ e : ℕ)| = 1 / 2 := by
        apply le_antisymm near
        rw [← mul_right_cancel₀ unit.ne' equal]
        exact half_le_of_ne near other
      have units : Even exponentUnit := by decide
      rw [magnitude]
      exact (units.mul_left e).add (tie half)
    · exact absurd equal (below k ne lt).ne'

/-- At most half a least number rounds to zero. -/
lemma rounds_zero {count : ℚ} (nonneg : 0 ≤ count) (le : count ≤ 1 / 2) : Rounds count 0 := by
  have zero : steps 0 = 0 := rfl
  refine ⟨fun k => ?_, fun _ _ => Even.zero⟩
  rcases Nat.eq_zero_or_pos k with rfl | pos
  · exact le_rfl
  · have one : (1 : ℚ) ≤ steps k := by
      have lt := steps_strictMono pos
      rw [zero] at lt
      exact_mod_cast lt
    rw [zero, Nat.cast_zero, zero_sub, abs_neg, abs_of_nonneg nonneg,
      abs_of_nonneg (by linarith : 0 ≤ (steps k : ℚ) - count)]
    linarith

/-! ## Infinities -/

/-- Half way from the greatest finite number to the next power of two. A number that is at least
this far from zero rounds to an infinity. -/
def overflow : ℚ :=
  2 ^ 1024 - 2 ^ 970

/-- The threshold is between the greatest finite magnitude and the infinite one, which would stand
for the next power of two. -/
lemma steps_around_overflow :
    (steps (infinite - 1) : ℚ) + steps infinite = 2 * (overflow * 2 ^ leastExponent) := by
  have greatest : steps (infinite - 1) = (2 * exponentUnit - 1) * 2 ^ 2045 := by
    have parts : infinite - 1 = 2045 * exponentUnit + (2 * exponentUnit - 1) := by decide
    rw [parts]
    exact steps_scaled (.inr (by decide)) (by decide)
  have next : steps infinite = 2 * exponentUnit * 2 ^ 2045 := by
    have parts : infinite = 2045 * exponentUnit + 2 * exponentUnit := by decide
    rw [parts]
    exact steps_scaled (.inr (by decide)) (by decide)
  have high : (2 : ℚ) ^ 1024 = 2 ^ 54 * 2 ^ 970 := by rw [← pow_add]
  have total : (2 : ℚ) ^ 2045 = 2 * 2 ^ 970 * 2 ^ leastExponent := by
    rw [← pow_succ', ← pow_add]
    rfl
  have unit : ((2 * exponentUnit - 1 : ℕ) : ℚ) + (2 * exponentUnit : ℕ) = 2 ^ 54 - 1 := by
    rw [exponentUnit_eq]
    norm_num
  rw [greatest, next, Nat.cast_mul, Nat.cast_mul (2 * exponentUnit), ← add_mul, unit, Nat.cast_pow,
    Nat.cast_ofNat, total, overflow, high]
  generalize (2 : ℚ) ^ 970 = low
  ring

/-- What is at least the threshold rounds to the infinite magnitude or beyond. At the threshold
itself both neighbours are equally close, and the infinite one is even. -/
lemma Rounds.infinite_le_iff {count : ℚ} {m : ℕ} (rd : Rounds count m) :
    infinite ≤ m ↔ overflow * 2 ^ leastExponent ≤ count := by
  have middle := steps_around_overflow
  have apart : (steps (infinite - 1) : ℚ) < steps infinite :=
    Nat.cast_lt.mpr (steps_strictMono (by decide))
  constructor
  · intro le
    by_contra short
    have above : (steps infinite : ℚ) ≤ steps m := Nat.cast_le.mpr (steps_strictMono.monotone le)
    have closer : |(steps (infinite - 1) : ℚ) - count| < steps infinite - count :=
      abs_lt.mpr ⟨by linarith, by linarith⟩
    have closest := rd.closest (infinite - 1)
    have distance := le_abs_self ((steps m : ℚ) - count)
    linarith
  · intro le
    by_contra finite
    have under : m ≤ infinite - 1 := Nat.le_sub_one_of_lt (Nat.not_le.mp finite)
    have below : (steps m : ℚ) ≤ steps (infinite - 1) :=
      Nat.cast_le.mpr (steps_strictMono.monotone under)
    have far : |(steps infinite : ℚ) - count| ≤ count - steps (infinite - 1) :=
      abs_le.mpr ⟨by linarith, by linarith⟩
    have closest := rd.closest infinite
    have distance := neg_le_abs ((steps m : ℚ) - count)
    have greatest : m = infinite - 1 := by
      apply steps_strictMono.injective
      exact_mod_cast (by linarith : (steps m : ℚ) = steps (infinite - 1))
    have even : Even m := rd.even (Nat.ne_of_gt (Nat.not_le.mp finite)) (by linarith)
    rw [greatest] at even
    exact absurd even (by decide)

end Binary64

/-! ## Numerals -/

namespace Decimal

open Binary64

/-- The number itself, before it is rounded. -/
def value (d : Decimal) : ℚ :=
  (if d.negative then -1 else 1) * (d.coefficient * 10 ^ d.exponent)

/-- The sign of a decimal number does not matter to its magnitude. -/
lemma abs_value (d : Decimal) : |d.value| = d.coefficient * 10 ^ d.exponent := by
  have nonneg : (0 : ℚ) ≤ d.coefficient * 10 ^ d.exponent := by positivity
  rw [value]
  split_ifs
  · rw [neg_one_mul, abs_neg, abs_of_nonneg nonneg]
  · rw [one_mul, abs_of_nonneg nonneg]

/-- A rank is not finite exactly from the infinite one on. -/
lemma finite?_eq_none_iff {m : ℕ} : finite? m = none ↔ infinite ≤ m := by
  unfold finite?
  split_ifs with lt
  · exact iff_of_false nofun (Nat.not_le.mpr lt)
  · exact iff_of_true rfl (Nat.not_lt.mp lt)

/-- A decimal number without a fraction is rounded to the nearest. -/
lemma rounds_ofNat (c e : ℕ) : Rounds (c * 10 ^ (Int.ofNat e) * 2 ^ leastExponent)
    (nearest (c * 2 ^ leastExponent * 10 ^ e) 1) := by
  have count : (c * 10 ^ (Int.ofNat e) * 2 ^ leastExponent : ℚ) =
      (c * 2 ^ leastExponent * 10 ^ e : ℕ) / (1 : ℕ) := by
    rw [Nat.cast_one, div_one, Int.ofNat_eq_natCast, zpow_natCast, mul_right_comm]
    push_cast
    rfl
  rw [count]
  exact rounds_nearest _ one_pos

/-- So is one with a fraction. -/
lemma rounds_negSucc (c e : ℕ) : Rounds (c * 10 ^ (Int.negSucc e) * 2 ^ leastExponent)
    (nearest (c * 2 ^ leastExponent) (10 ^ (e + 1))) := by
  have count : (c * 10 ^ (Int.negSucc e) * 2 ^ leastExponent : ℚ) =
      (c * 2 ^ leastExponent : ℕ) / (10 ^ (e + 1) : ℕ) := by
    rw [zpow_negSucc, mul_right_comm, div_eq_mul_inv]
    push_cast
    rfl
  rw [count]
  exact rounds_nearest _ (by positivity)

/-- A numeral whose power of ten is too large to be formed rounds to an infinity. -/
lemma overflow_le_of_lt {c e : ℕ} (ne : c ≠ 0) (large : 400 < e) :
    overflow ≤ c * 10 ^ (Int.ofNat e) := by
  have one : (1 : ℚ) ≤ c := Nat.one_le_cast.mpr (Nat.one_le_iff_ne_zero.mpr ne)
  calc overflow ≤ 2 ^ 1024 := sub_le_self _ (by positivity)
    _ ≤ 2 ^ (3 * e) := pow_le_pow_right₀ one_le_two (by omega)
    _ = (2 ^ 3) ^ e := pow_mul 2 3 e
    _ ≤ 10 ^ e := pow_le_pow_left₀ (by norm_num) (by norm_num) e
    _ ≤ c * 10 ^ e := le_mul_of_one_le_left (by positivity) one
    _ = c * 10 ^ (Int.ofNat e) := by rw [Int.ofNat_eq_natCast, zpow_natCast]

/-- A numeral whose negative power of ten is too large to be formed rounds to zero. -/
lemma rounds_zero_of_log2_le {c e : ℕ} (small : c.log2 + 1076 ≤ 3 * (e + 1)) :
    Rounds (c * 10 ^ (Int.negSucc e) * 2 ^ leastExponent) 0 := by
  have least : leastExponent = 1074 := rfl
  have le : c * 2 ^ leastExponent * 2 ≤ 10 ^ (e + 1) := by
    calc c * 2 ^ leastExponent * 2 ≤ 2 ^ (c.log2 + 1) * 2 ^ leastExponent * 2 := by
          gcongr
          exact Nat.lt_log2_self.le
      _ = 2 ^ (c.log2 + 1076) := by rw [← pow_add, ← pow_succ, least]
      _ ≤ 2 ^ (3 * (e + 1)) := Nat.pow_le_pow_right two_pos small
      _ = (2 ^ 3) ^ (e + 1) := pow_mul 2 3 (e + 1)
      _ ≤ 10 ^ (e + 1) := Nat.pow_le_pow_left (by norm_num) (e + 1)
  apply rounds_zero (by positivity)
  rw [zpow_negSucc, mul_right_comm, ← div_eq_mul_inv, div_le_div_iff₀ (by positivity) two_pos,
    one_mul]
  exact_mod_cast le

/-- A numeral is read as the magnitude that its number rounds to, unless that is infinite. -/
lemma exists_rounds (d : Decimal) :
    ∃ m, Rounds (|d.value| * 2 ^ leastExponent) m ∧ d.magnitude? = finite? m := by
  rw [abs_value]
  obtain ⟨negative, c, exponent⟩ := d
  by_cases zero : c = 0
  · refine ⟨0, ?_, ?_⟩
    · simp only [zero, Nat.cast_zero, zero_mul]
      exact rounds_zero le_rfl (by norm_num)
    · simp only [magnitude?, zero, if_true]
      rfl
  simp only [magnitude?, zero, if_false, Nat.pow_eq]
  cases exponent with
  | ofNat e =>
    refine ⟨_, rounds_ofNat c e, ?_⟩
    dsimp only
    split_ifs with large
    · have le := mul_le_mul_of_nonneg_right (overflow_le_of_lt zero large)
        (by positivity : (0 : ℚ) ≤ 2 ^ leastExponent)
      exact (finite?_eq_none_iff.mpr ((rounds_ofNat c e).infinite_le_iff.mpr le)).symm
    · with_reducible rfl
  | negSucc e =>
    dsimp only
    split_ifs with small
    · exact ⟨0, rounds_zero_of_log2_le small, rfl⟩
    · refine ⟨_, rounds_negSucc c e, ?_⟩
      with_reducible rfl

/-- A numeral has no magnitude exactly if its number rounds to an infinity. -/
lemma magnitude?_eq_none_iff (d : Decimal) : d.magnitude? = none ↔ overflow ≤ |d.value| := by
  obtain ⟨m, rounds, read⟩ := d.exists_rounds
  rw [read, finite?_eq_none_iff, rounds.infinite_le_iff]
  exact mul_le_mul_iff_of_pos_right (by positivity)

end Decimal

end FrontEnd
