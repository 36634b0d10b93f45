import Mathlib.Algebra.Order.Field.Power
import Mathlib.Tactic.FieldSimp
import Mathlib.Tactic.Positivity
import Mathlib.Tactic.Ring
import GridTick.Number.Nearest

/-!
# GridTick.Proofs.Number.Rounding — how large a rounded fraction comes out

A fraction is rounded on a scale on which it takes as many bits as the format has, or fewer where the format's least
exponent does not allow so many.  So the rounded number is at most four times the fraction, or among the smallest of
the format; and a fraction well below the format's largest number has a nearest one.

* `two_zpow_eq`: powers of two with an exponent of either sign, by whole numbers.
* `Ratio.value`, `Ratio.value_halved`: fractions as rational numbers.
* `FloatFormat.value_lt_place`, `FloatFormat.place_le`: the scale of a fraction.
* `FloatFormat.nearest_le`, `FloatFormat.exists_nearest`: bounds of the rounded number, and that there is one.
-/

namespace GridTick

theorem two_zpow_eq (e : Int) : (2 : ℚ) ^ e = ((twoTo e.toNat : Nat) : ℚ) / ((twoTo (-e).toNat : Nat) : ℚ) := by
  have hsplit : e = (e.toNat : Int) - ((-e).toNat : Int) := by omega
  conv_lhs => rw [hsplit]
  rw [zpow_sub₀ two_ne_zero, zpow_natCast, zpow_natCast]
  norm_cast

/-! ## Fractions -/

namespace Ratio

/-- The rational number that a fraction stands for. -/
def value (r : Ratio) : ℚ := r.numerator / r.denominator

theorem value_halved (r : Ratio) (e : Int) : (r.halved e).value = r.value / 2 ^ e := by
  rw [value, halved, value, two_zpow_eq]
  push_cast
  field_simp

theorem halved_denominator_pos {r : Ratio} (h : 0 < r.denominator) (e : Int) : 0 < (r.halved e).denominator :=
  Nat.mul_pos h (Nat.two_pow_pos _)

theorem numerator_lt_iff {r : Ratio} (h : 0 < r.denominator) {k : Nat} :
    r.numerator < r.denominator * k ↔ r.value < k := by
  have hpos : (0 : ℚ) < r.denominator := by exact_mod_cast h
  rw [value, div_lt_iff₀ hpos, mul_comm (k : ℚ)]
  norm_cast

/-- Bit lengths tell a fraction up to a factor of two on either side. -/
theorem value_lt_log2 {r : Ratio} (hden : 0 < r.denominator) :
    r.value < 2 ^ ((r.numerator.log2 : Int) - r.denominator.log2 + 1) := by
  have hpos : (0 : ℚ) < r.denominator := by exact_mod_cast hden
  have hnum : (r.numerator : ℚ) < 2 ^ (r.numerator.log2 + 1) := by exact_mod_cast Nat.lt_log2_self
  have hlow : (2 : ℚ) ^ r.denominator.log2 ≤ r.denominator := by exact_mod_cast Nat.log2_self_le (by omega)
  have hsplit : (2 : ℚ) ^ ((r.numerator.log2 : Int) - r.denominator.log2 + 1) * 2 ^ r.denominator.log2 =
      2 ^ (r.numerator.log2 + 1) := by
    rw [← zpow_natCast, ← zpow_add₀ two_ne_zero, ← zpow_natCast]
    congr 1
    push_cast
    ring
  rw [value, div_lt_iff₀ hpos]
  calc (r.numerator : ℚ) < 2 ^ ((r.numerator.log2 : Int) - r.denominator.log2 + 1) * 2 ^ r.denominator.log2 := by
        rw [hsplit]; exact hnum
    _ ≤ 2 ^ ((r.numerator.log2 : Int) - r.denominator.log2 + 1) * r.denominator := by gcongr

theorem log2_lt_value {r : Ratio} (hnum : 0 < r.numerator) (hden : 0 < r.denominator) :
    (2 : ℚ) ^ ((r.numerator.log2 : Int) - r.denominator.log2 - 1) < r.value := by
  have hpos : (0 : ℚ) < r.denominator := by exact_mod_cast hden
  have hlow : (2 : ℚ) ^ r.numerator.log2 ≤ r.numerator := by exact_mod_cast Nat.log2_self_le (by omega)
  have hhigh : (r.denominator : ℚ) < 2 ^ (r.denominator.log2 + 1) := by exact_mod_cast Nat.lt_log2_self
  have hsplit : (2 : ℚ) ^ ((r.numerator.log2 : Int) - r.denominator.log2 - 1) * 2 ^ (r.denominator.log2 + 1) =
      2 ^ r.numerator.log2 := by
    rw [← zpow_natCast, ← zpow_add₀ two_ne_zero, ← zpow_natCast]
    congr 1
    push_cast
    ring
  rw [value, lt_div_iff₀ hpos]
  calc (2 : ℚ) ^ ((r.numerator.log2 : Int) - r.denominator.log2 - 1) * r.denominator
      < 2 ^ ((r.numerator.log2 : Int) - r.denominator.log2 - 1) * 2 ^ (r.denominator.log2 + 1) := by gcongr
    _ ≤ r.numerator := by rw [hsplit]; exact hlow

end Ratio

theorem divideHalfEven_le {n d k : Nat} (h : n < d * k) : divideHalfEven n d ≤ k := by
  have hquotient : n / d < k := Nat.div_lt_of_lt_mul h
  simp only [divideHalfEven]
  split
  · omega
  · split
    · omega
    · omega

namespace FloatFormat

variable {f : FloatFormat} {r : Ratio} {m : Nat} {e : Int}

/-! ## The scale of a fraction -/

/-- On the scale of its place a fraction fits the significand. -/
theorem value_lt_place (f : FloatFormat) (hden : 0 < r.denominator) :
    r.value < 2 ^ ((f.precision : Int) + f.placeOf r) := by
  have hlog := Ratio.value_lt_log2 hden
  unfold placeOf
  dsimp only
  split
  · rename_i hfits
    rw [Ratio.numerator_lt_iff (Ratio.halved_denominator_pos hden _), Ratio.value_halved,
      div_lt_iff₀ (by positivity)] at hfits
    rw [zpow_add₀ two_ne_zero, zpow_natCast]
    exact_mod_cast hfits
  · have hexponent : (f.precision : Int) + ((r.numerator.log2 : Int) - r.denominator.log2 - f.precision + 1) =
        (r.numerator.log2 : Int) - r.denominator.log2 + 1 := by ring
    rw [hexponent]
    exact hlog

theorem place_le (f : FloatFormat) (r : Ratio) :
    f.placeOf r ≤ (r.numerator.log2 : Int) - r.denominator.log2 - f.precision + 1 := by
  unfold placeOf
  dsimp only
  split
  · omega
  · omega

theorem place_le_of_lt {k : Int} (hnum : 0 < r.numerator) (hden : 0 < r.denominator) (h : r.value < 2 ^ k) :
    f.placeOf r ≤ k - f.precision + 1 := by
  have hlog := (Ratio.log2_lt_value hnum hden).trans h
  have hexponent := (zpow_lt_zpow_iff_right₀ (by norm_num : (1 : ℚ) < 2)).mp hlog
  have hplace := place_le f r
  omega

/-- The significand before it is brought back into its range. -/
theorem rounded_le (f : FloatFormat) (hden : 0 < r.denominator) (he : f.placeOf r ≤ e) :
    divideHalfEven (r.halved e).numerator (r.halved e).denominator ≤ twoTo f.precision := by
  refine divideHalfEven_le ((Ratio.numerator_lt_iff (Ratio.halved_denominator_pos hden e)).mpr ?_)
  rw [Ratio.value_halved, div_lt_iff₀ (by positivity)]
  calc r.value < 2 ^ ((f.precision : Int) + f.placeOf r) := value_lt_place f hden
    _ ≤ 2 ^ ((f.precision : Int) + e) := zpow_le_zpow_right₀ (by norm_num) (by omega)
    _ = _ := by rw [zpow_add₀ two_ne_zero, zpow_natCast]; norm_cast

/-! ## The nearest number -/

/-- The exponent and the significand of a nearest number, by the scale of the fraction. -/
theorem nearest_bounds (hp : 0 < f.precision) (hnum : 0 < r.numerator) (hden : 0 < r.denominator)
    (h : f.nearest r = some (m, e)) :
    (m : ℚ) * 2 ^ e ≤ 2 ^ ((f.precision : Int) + max (f.placeOf r) f.minExponent) := by
  have hround := rounded_le f hden (e := max (f.placeOf r) f.minExponent) (le_max_left _ _)
  have hpower : ∀ e : Int, ((twoTo f.precision : Nat) : ℚ) * 2 ^ e = 2 ^ ((f.precision : Int) + e) := by
    intro e
    rw [zpow_add₀ two_ne_zero, zpow_natCast]
    norm_cast
  rw [nearest, if_neg (by omega)] at h
  dsimp only at h
  split at h
  · -- a significand that has reached the next power of two is halved, and its exponent goes up
    dsimp only at h
    split at h
    · cases h
      have hhalf : ((twoTo (f.precision - 1) : Nat) : ℚ) * 2 = ((twoTo f.precision : Nat) : ℚ) := by
        have hpow : twoTo (f.precision - 1) * 2 = twoTo f.precision := Nat.pow_pred_mul hp
        exact_mod_cast hpow
      rw [zpow_add_one₀ two_ne_zero, ← hpower, ← hhalf]
      exact le_of_eq (by ring)
    · cases h
  · dsimp only at h
    split at h
    · cases h
      rw [← hpower]
      gcongr
    · cases h

/-- A fraction comes out at most four times as large, or among the smallest numbers. -/
theorem nearest_le (hp : 0 < f.precision) (hden : 0 < r.denominator) (h : f.nearest r = some (m, e)) :
    (m : ℚ) * 2 ^ e ≤ max (4 * r.value) (2 ^ ((f.precision : Int) + f.minExponent)) := by
  by_cases hnum : r.numerator = 0
  · rw [nearest, if_pos hnum] at h
    cases h
    rw [Nat.cast_zero, zero_mul]
    exact le_max_of_le_right (by positivity)
  · have hbounds := nearest_bounds hp (by omega) hden h
    refine hbounds.trans ?_
    rcases max_cases (f.placeOf r) f.minExponent with ⟨hmax, -⟩ | ⟨hmax, -⟩
    · rw [hmax]
      refine le_max_of_le_left ?_
      have hlog := Ratio.log2_lt_value (by omega) hden
      have hplace := place_le f r
      calc (2 : ℚ) ^ ((f.precision : Int) + f.placeOf r)
          ≤ 2 ^ (2 + ((r.numerator.log2 : Int) - r.denominator.log2 - 1)) :=
            zpow_le_zpow_right₀ (by norm_num) (by omega)
        _ = 4 * 2 ^ ((r.numerator.log2 : Int) - r.denominator.log2 - 1) := by
            rw [zpow_add₀ two_ne_zero]; norm_num
        _ ≤ 4 * r.value := by gcongr
    · rw [hmax]
      exact le_max_right _ _

/-- A fraction that is not too large has a nearest number. -/
theorem exists_nearest {k : Int} (hden : 0 < r.denominator) (h : r.value < 2 ^ k)
    (hmax : k - f.precision + 2 ≤ f.maxExponent) (hmin : f.minExponent < f.maxExponent) :
    ∃ m e, f.nearest r = some (m, e) := by
  rw [nearest]
  by_cases hnum : r.numerator = 0
  · rw [if_pos hnum]
    exact ⟨0, f.minExponent, rfl⟩
  · have hplace := place_le_of_lt (f := f) (by omega) hden h
    rw [if_neg hnum]
    dsimp only
    split
    · dsimp only
      rw [if_pos (by omega)]
      exact ⟨_, _, rfl⟩
    · dsimp only
      rw [if_pos (by omega)]
      exact ⟨_, _, rfl⟩

end FloatFormat

end GridTick
