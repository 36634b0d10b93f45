import Mathlib.Data.Rat.Floor
import GridTick.Proofs.Number.Rounding

/-!
# GridTick.Proofs.Number.Value — doubles as rational numbers

A finite double stands for a rational number, and the whole numbers that rules about doubles are stated on come from
it.  A quotient by a power of two is exact unless the last place falls below the smallest one; then both the quotient
and what it is rounded to lie between minus one and one, and only their signs are left.

* `Binary64.valueOf`, `Binary64.value?`, `Binary64.Le`: the number behind a double, and the order of doubles.
* `Binary64.floorOf_eq`: rounding down.
* `Binary64.ofBits_bounds`: significands and exponents that bits can have.
* `Binary64.floor_sixteenth`: a sixteenth, rounded as the format rounds and then rounded down.
* `Binary64.bitsOf`, `Binary64.bitsOfWhole`: bits for given parts, and for a whole number of 53 bits.
-/

namespace GridTick

namespace Binary64

/-! ## Numbers -/

/-- A whole number with a sign. -/
def signed (negative : Bool) (m : Nat) : Int := if negative then -(m : Int) else m

/-- The number `±m · 2^e`. -/
def valueOf (negative : Bool) (m : Nat) (e : Int) : ℚ := signed negative m * 2 ^ e

/-- The number behind a double that is finite. -/
def value? : Binary64 → Option ℚ
  | .finite negative m e => some (valueOf negative m e)
  | _ => none

/-- The order of doubles: between the infinities by their numbers, and nothing else. -/
inductive Le : Binary64 → Binary64 → Prop where
  | least {v : Binary64} : v ≠ .notANumber → Le (.infinite true) v
  | greatest {v : Binary64} : v ≠ .notANumber → Le v (.infinite false)
  | finite {v w : Binary64} {q r : ℚ} : v.value? = some q → w.value? = some r → q ≤ r → Le v w

theorem value?_eq_some_iff {v : Binary64} {q : ℚ} :
    v.value? = some q ↔ ∃ negative m e, v = .finite negative m e ∧ q = valueOf negative m e := by
  constructor
  · intro h
    cases v with
    | notANumber => cases h
    | infinite negative => cases h
    | finite negative m e =>
      cases h
      exact ⟨negative, m, e, rfl, rfl⟩
  · rintro ⟨negative, m, e, rfl, rfl⟩
    rfl

theorem floorOf_eq (negative : Bool) (m : Nat) (e : Int) : floorOf negative m e = ⌊valueOf negative m e⌋ := by
  have hvalue : valueOf negative m e =
      ((signed negative m * twoTo e.toNat : Int) : ℚ) / ((twoTo (-e).toNat : Nat) : ℚ) := by
    rw [valueOf, two_zpow_eq, Int.cast_mul, mul_div_assoc]
    rfl
  rw [hvalue, Rat.floor_intCast_div_natCast]
  rfl

theorem valueOf_sub (negative : Bool) (m : Nat) (e : Int) (s : Nat) :
    valueOf negative m (e - s) = valueOf negative m e / 2 ^ s := by
  rw [valueOf, valueOf, zpow_sub₀ two_ne_zero, zpow_natCast, mul_div_assoc]

theorem valueOf_neg_iff (negative : Bool) (m : Nat) (e : Int) :
    valueOf negative m e < 0 ↔ negative = true ∧ m ≠ 0 := by
  have hpos : (0 : ℚ) < 2 ^ e := by positivity
  have hsign : valueOf negative m e < 0 ↔ signed negative m < 0 := by
    rw [valueOf, mul_neg_iff]
    simp only [hpos, hpos.not_gt, and_false, and_true, false_or, Int.cast_lt_zero]
  rw [hsign, signed]
  cases negative with
  | false => simp
  | true => simp [Nat.pos_iff_ne_zero]

/-! ## Small numbers -/

/-- A number between minus one and one is rounded down by its sign alone. -/
theorem floor_of_abs_lt_one {q : ℚ} (h : |q| < 1) : ⌊q⌋ = if q < 0 then -1 else 0 := by
  obtain ⟨hlow, hhigh⟩ := abs_lt.mp h
  by_cases hneg : q < 0
  · rw [if_pos hneg, Int.floor_eq_iff]
    push_cast
    constructor
    · linarith
    · linarith
  · rw [if_neg hneg, Int.floor_eq_iff]
    push_cast
    constructor
    · linarith
    · linarith

theorem abs_valueOf_lt_one (negative : Bool) {m : Nat} {e : Int} (hm : m ≤ 2 ^ 53) (he : e ≤ -54) :
    |valueOf negative m e| < 1 := by
  have hpos : (0 : ℚ) < 2 ^ e := by positivity
  have habs : |(signed negative m : ℚ)| = m := by
    cases negative <;> simp [signed]
  have hcast : (m : ℚ) ≤ 2 ^ (53 : Int) := by exact_mod_cast hm
  rw [valueOf, abs_mul, habs, abs_of_pos hpos]
  calc (m : ℚ) * 2 ^ e ≤ 2 ^ (53 : Int) * 2 ^ e := by gcongr
    _ = 2 ^ (53 + e) := (zpow_add₀ two_ne_zero _ _).symm
    _ < 2 ^ (0 : Int) := zpow_lt_zpow_right₀ (by norm_num) (by omega)
    _ = 1 := zpow_zero _

theorem floorOf_small (negative : Bool) {m : Nat} {e : Int} (hm : m ≤ 2 ^ 53) (he : e ≤ -54) :
    floorOf negative m e = if negative = true ∧ m ≠ 0 then -1 else 0 := by
  rw [floorOf_eq, floor_of_abs_lt_one (abs_valueOf_lt_one negative hm he)]
  simp only [valueOf_neg_iff]

/-! ## Sixteenths -/

theorem divideHalfEven_eq_zero_iff {n d : Nat} (hd : 0 < d) : divideHalfEven n d = 0 ↔ 2 * n ≤ d := by
  have hsplit := Nat.div_add_mod n d
  have hrest := Nat.mod_lt n hd
  by_cases hzero : n / d = 0
  · rw [hzero, Nat.mul_zero, Nat.zero_add] at hsplit
    simp only [divideHalfEven, hzero, hsplit]
    split
    · omega
    · split
      · omega
      · omega
  · have hle : d ≤ n := Nat.le_of_not_lt fun hlt => hzero (Nat.div_eq_of_lt hlt)
    have hquotient : n / d ≤ divideHalfEven n d := by
      simp only [divideHalfEven]
      split
      · exact Nat.le_refl _
      · split
        · exact Nat.le_succ _
        · exact Nat.le_add_right _ _
    constructor
    · intro h
      rw [h] at hquotient
      exact absurd (Nat.le_zero.mp hquotient) hzero
    · intro h
      omega

/-- Negative numbers whose sixteenth is rounded to zero. -/
def Vanishes (v : ℚ) : Prop := -2 ^ (-1071 : Int) ≤ v ∧ v < 0

instance (v : ℚ) : Decidable (Vanishes v) := inferInstanceAs (Decidable (_ ∧ _))

/-- Below the place where sixteenths stay exact, a number vanishes just if its sixteenth is rounded to zero. -/
theorem vanishes_iff_of_inexact (negative : Bool) (m : Nat) {e : Int} {k : Nat} (hk : e = -1070 - k) :
    Vanishes (valueOf negative m e) ↔ (negative = true ∧ m ≠ 0) ∧ divideHalfEven m (twoTo k) = 0 := by
  have hpos : (0 : ℚ) < 2 ^ e := by positivity
  have hscale : (2 : ℚ) * 2 ^ (-1071 : Int) = ((twoTo k : Nat) : ℚ) * 2 ^ e := by
    have hcast : ((twoTo k : Nat) : ℚ) = 2 ^ (k : Int) := by
      rw [zpow_natCast]
      exact_mod_cast rfl
    rw [hcast, ← zpow_add₀ two_ne_zero, ← zpow_one_add₀ two_ne_zero]
    congr 1
    omega
  rw [Vanishes, valueOf_neg_iff, divideHalfEven_eq_zero_iff (show 0 < twoTo k from Nat.two_pow_pos k), and_comm]
  refine and_congr_right ?_
  rintro ⟨rfl, -⟩
  have hvalue : valueOf true m e = -((m : ℚ) * 2 ^ e) := by
    rw [valueOf, signed, if_pos rfl, Int.cast_neg, neg_mul, Int.cast_natCast]
  rw [hvalue, neg_le_neg_iff]
  constructor
  · intro h
    have hdouble : ((2 * m : Nat) : ℚ) * 2 ^ e ≤ ((twoTo k : Nat) : ℚ) * 2 ^ e := by
      rw [← hscale, Nat.cast_mul, Nat.cast_two, mul_assoc]
      exact mul_le_mul_of_nonneg_left h zero_le_two
    exact_mod_cast le_of_mul_le_mul_right hdouble hpos
  · intro h
    have hcast : ((2 * m : Nat) : ℚ) ≤ ((twoTo k : Nat) : ℚ) := by exact_mod_cast h
    have hdouble := mul_le_mul_of_nonneg_right hcast hpos.le
    rw [← hscale, Nat.cast_mul, Nat.cast_two, mul_assoc] at hdouble
    exact le_of_mul_le_mul_left hdouble two_pos

/-- Above that place nothing vanishes. -/
theorem not_vanishes_of_exact (negative : Bool) (m : Nat) {e : Int} (he : -1070 ≤ e) :
    ¬ Vanishes (valueOf negative m e) := by
  rintro ⟨hlow, hneg⟩
  obtain ⟨rfl, hm⟩ := (valueOf_neg_iff negative m e).mp hneg
  have hone : (1 : ℚ) ≤ m := by exact_mod_cast Nat.one_le_iff_ne_zero.mpr hm
  have hlarge : (2 : ℚ) ^ (-1071 : Int) < m * 2 ^ e := by
    calc (2 : ℚ) ^ (-1071 : Int) < 2 ^ e := zpow_lt_zpow_right₀ (by norm_num) (by omega)
      _ = 1 * 2 ^ e := (one_mul _).symm
      _ ≤ m * 2 ^ e := by gcongr
  rw [valueOf, signed, if_pos rfl, Int.cast_neg, neg_mul, Int.cast_natCast, neg_le_neg_iff] at hlow
  exact absurd hlow (not_le_of_gt hlarge)

theorem valueOf_sixteenth (negative : Bool) (m : Nat) (e : Int) :
    valueOf negative m e / 16 = valueOf negative m (e - (4 : Nat)) := by
  rw [valueOf_sub]
  norm_num

theorem shiftDown_exact (m : Nat) {e : Int} (he : -1070 ≤ e) : shiftDown m e 4 = (m, e - (4 : Nat)) := by
  have hmin : minExponent = -1074 := rfl
  rw [shiftDown, if_pos (by omega)]

theorem shiftDown_inexact (m : Nat) {e : Int} {k : Nat} (hk : e = -1070 - k) (hpos : 0 < k) :
    shiftDown m e 4 = (divideHalfEven m (twoTo k), minExponent) := by
  have hmin : minExponent = -1074 := rfl
  have hplaces : (minExponent - (e - (4 : Nat))).toNat = k := by omega
  rw [shiftDown, if_neg (by omega), hplaces]

/-- A sixteenth that is not exact is rounded down by what is left of it, and so is the exact one. -/
theorem floorOf_inexact (negative : Bool) {m k : Nat} (hm : m < 2 ^ 53) :
    floorOf negative (divideHalfEven m (twoTo k)) minExponent =
      if (negative = true ∧ m ≠ 0) ∧ divideHalfEven m (twoTo k) ≠ 0 then -1 else 0 := by
  have hrounded : divideHalfEven m (twoTo k) ≤ 2 ^ 53 :=
    divideHalfEven_le (hm.trans_le (Nat.le_mul_of_pos_left _ (Nat.two_pow_pos k)))
  have hzero : m = 0 → divideHalfEven m (twoTo k) = 0 := by
    rintro rfl
    exact (divideHalfEven_eq_zero_iff (show 0 < twoTo k from Nat.two_pow_pos k)).mpr (Nat.zero_le _)
  have hsame : (negative = true ∧ divideHalfEven m (twoTo k) ≠ 0) ↔
      (negative = true ∧ m ≠ 0) ∧ divideHalfEven m (twoTo k) ≠ 0 :=
    ⟨fun h => ⟨⟨h.1, fun hm0 => h.2 (hzero hm0)⟩, h.2⟩, fun h => ⟨h.1.1, h.2⟩⟩
  rw [floorOf_small negative hrounded (by decide)]
  simp only [hsame]

/-- A sixteenth, rounded as the format rounds, is rounded down as the exact one unless it vanishes. -/
theorem floor_sixteenth (negative : Bool) {m : Nat} {e : Int} (hm : m < 2 ^ 53) (he : minExponent ≤ e) :
    (Vanishes (valueOf negative m e) →
      floorOf negative (shiftDown m e 4).1 (shiftDown m e 4).2 = 0 ∧ ⌊valueOf negative m e / 16⌋ = -1) ∧
    (¬ Vanishes (valueOf negative m e) →
      floorOf negative (shiftDown m e 4).1 (shiftDown m e 4).2 = ⌊valueOf negative m e / 16⌋) := by
  have hmin : minExponent = -1074 := rfl
  rw [valueOf_sixteenth, ← floorOf_eq]
  by_cases hexact : -1070 ≤ e
  · rw [shiftDown_exact m hexact]
    exact ⟨fun hv => absurd hv (not_vanishes_of_exact negative m hexact), fun _ => rfl⟩
  · obtain ⟨k, hk⟩ : ∃ k : Nat, e = -1070 - k := ⟨(-1070 - e).toNat, by omega⟩
    rw [shiftDown_inexact m hk (by omega), vanishes_iff_of_inexact negative m hk, floorOf_inexact negative hm,
      floorOf_small negative hm.le (by omega)]
    constructor
    · rintro ⟨hnegative, hzero⟩
      rw [if_neg (fun h => h.2 hzero), if_pos hnegative]
      exact ⟨rfl, rfl⟩
    · intro hkept
      by_cases hnegative : negative = true ∧ m ≠ 0
      · rw [if_pos hnegative, if_pos ⟨hnegative, fun hzero => hkept ⟨hnegative, hzero⟩⟩]
      · rw [if_neg hnegative, if_neg (fun h => hnegative h.1)]

/-! ## Bits -/

theorem fractionBits_power : twoTo fractionBits = 4503599627370496 := rfl

/-- The parts that bits can have. -/
theorem ofBits_bounds {bits : UInt64} {negative : Bool} {m : Nat} {e : Int}
    (h : ofBits bits = .finite negative m e) : m < 2 ^ 53 ∧ minExponent ≤ e := by
  have hpower := fractionBits_power
  have hmin : minExponent = -1074 := rfl
  unfold ofBits at h
  extract_lets word sign field fraction at h
  have hfraction : fraction < twoTo fractionBits := Nat.mod_lt _ (Nat.two_pow_pos _)
  split at h
  · split at h
    · cases h
    · cases h
  · split at h
    · obtain ⟨-, hm, he⟩ := Binary64.finite.inj h
      omega
    · obtain ⟨-, hm, he⟩ := Binary64.finite.inj h
      omega

/-- The bits for a sign, an exponent field and a fraction. -/
def bitsOf (negative : Bool) (field fraction : Nat) : UInt64 :=
  UInt64.ofNat ((if negative then twoTo 63 else 0) + field * twoTo fractionBits + fraction)

theorem toNat_bitsOf (negative : Bool) {field fraction : Nat} (hfield : field < 2048)
    (hfraction : fraction < 4503599627370496) : (bitsOf negative field fraction).toNat =
      (if negative then 9223372036854775808 else 0) + field * 4503599627370496 + fraction := by
  rw [bitsOf, fractionBits_power]
  refine UInt64.toNat_ofNat_of_lt' ?_
  show (if negative then 9223372036854775808 else 0) + field * 4503599627370496 + fraction < 18446744073709551616
  split
  · omega
  · omega

theorem ofBits_normal {bits : UInt64} (hspecial : bits.toNat / twoTo fractionBits % twoTo 11 ≠ 2047)
    (hsmall : bits.toNat / twoTo fractionBits % twoTo 11 ≠ 0) :
    ofBits bits = .finite (twoTo 63 ≤ bits.toNat) (bits.toNat % twoTo fractionBits + twoTo fractionBits)
      ((bits.toNat / twoTo fractionBits % twoTo 11 : Nat) - 1075) :=
  (if_neg hspecial).trans (if_neg hsmall)

theorem ofBits_bitsOf (negative : Bool) {field fraction : Nat} (hfield : 0 < field) (hlimit : field < 2047)
    (hfraction : fraction < 4503599627370496) :
    ofBits (bitsOf negative field fraction) = .finite negative (fraction + 4503599627370496) ((field : Int) - 1075) := by
  have hword := toNat_bitsOf negative (show field < 2048 by omega) hfraction
  have hexponent : (bitsOf negative field fraction).toNat / twoTo fractionBits % twoTo 11 = field := by
    show (bitsOf negative field fraction).toNat / 4503599627370496 % 2048 = field
    split at hword
    · omega
    · omega
  have hrest : (bitsOf negative field fraction).toNat % twoTo fractionBits = fraction := by
    show (bitsOf negative field fraction).toNat % 4503599627370496 = fraction
    split at hword
    · omega
    · omega
  have hsign : decide (twoTo 63 ≤ (bitsOf negative field fraction).toNat) = negative := by
    show decide (9223372036854775808 ≤ (bitsOf negative field fraction).toNat) = negative
    cases negative with
    | false =>
      rw [if_neg Bool.false_ne_true] at hword
      exact decide_eq_false (by omega)
    | true =>
      rw [if_pos rfl] at hword
      exact decide_eq_true (by omega)
  rw [ofBits_normal (by omega) (by omega), hsign, hexponent, hrest, fractionBits_power]

/-- The bits for a whole number: the number is brought to 53 bits. -/
def bitsOfWhole (n : Int) : UInt64 :=
  if n = 0 then 0
  else bitsOf (n < 0) (1023 + n.natAbs.log2) (n.natAbs * twoTo (fractionBits - n.natAbs.log2) - twoTo fractionBits)

/-- Brought to 53 bits, a whole number keeps its value. -/
theorem valueOf_widened (n : Int) (k : Nat) : valueOf (n < 0) (n.natAbs * twoTo k) (-k) = n := by
  have hsigned : signed (n < 0) (n.natAbs * twoTo k) = n * twoTo k := by
    rw [signed, Nat.cast_mul]
    by_cases hneg : n < 0
    · rw [decide_eq_true hneg, if_pos rfl, ← neg_mul, Int.ofNat_natAbs_of_nonpos hneg.le, neg_neg]
    · rw [decide_eq_false hneg, if_neg Bool.false_ne_true, Int.natAbs_of_nonneg (by omega)]
  have hpower : ((twoTo k : Nat) : ℚ) = 2 ^ k := by exact_mod_cast rfl
  rw [valueOf, hsigned, Int.cast_mul, Int.cast_natCast, hpower, zpow_neg, zpow_natCast]
  exact mul_inv_cancel_right₀ (by positivity) _

/-- A whole number that is brought to 53 bits has just so many. -/
theorem widened_bounds {n k : Nat} (hn : n ≠ 0) (hk : n.log2 + k = 52) :
    4503599627370496 ≤ n * twoTo k ∧ n * twoTo k < 9007199254740992 := by
  have hlow : twoTo n.log2 ≤ n := Nat.log2_self_le hn
  have hhigh : n < twoTo (n.log2 + 1) := Nat.lt_log2_self
  constructor
  · calc 4503599627370496 = twoTo (n.log2 + k) := by rw [hk]
      _ = twoTo n.log2 * twoTo k := Nat.pow_add ..
      _ ≤ n * twoTo k := Nat.mul_le_mul_right _ hlow
  · calc n * twoTo k < twoTo (n.log2 + 1) * twoTo k := Nat.mul_lt_mul_of_pos_right hhigh (Nat.two_pow_pos k)
      _ = twoTo (n.log2 + 1 + k) := (Nat.pow_add ..).symm
      _ = 9007199254740992 := by rw [Nat.add_right_comm, hk]

theorem ofBits_bitsOfWhole {n : Int} {k : Nat} (hn : n ≠ 0) (hk : n.natAbs.log2 + k = 52) :
    ofBits (bitsOfWhole n) = .finite (n < 0) (n.natAbs * twoTo k) (-k) := by
  have hbits : fractionBits = 52 := rfl
  obtain ⟨hleast, hgreatest⟩ := widened_bounds (n := n.natAbs) (by omega) hk
  have hfraction : n.natAbs * twoTo k - 4503599627370496 < 4503599627370496 := by omega
  have hsignificand : n.natAbs * twoTo k - 4503599627370496 + 4503599627370496 = n.natAbs * twoTo k := by omega
  have hexponent : ((1023 + n.natAbs.log2 : Nat) : Int) - 1075 = -k := by omega
  have hwidth : fractionBits - n.natAbs.log2 = k := by omega
  rw [bitsOfWhole, if_neg hn, hwidth, fractionBits_power, ofBits_bitsOf _ (by omega) (by omega) hfraction,
    hsignificand, hexponent]

/-- The bits for a whole number stand for it. -/
theorem value?_bitsOfWhole {n : Int} (h : n.natAbs < 2 ^ 53) : (ofBits (bitsOfWhole n)).value? = some (n : ℚ) := by
  by_cases hzero : n = 0
  · subst hzero
    have hdecoded : ofBits (bitsOfWhole 0) = .finite false 0 minExponent := rfl
    rw [hdecoded, value?, valueOf, signed, if_neg Bool.false_ne_true, Nat.cast_zero, Int.cast_zero, zero_mul]
  · have hplaces : n.natAbs.log2 < 53 := (Nat.log2_lt (by omega)).mpr h
    obtain ⟨k, hk⟩ : ∃ k, n.natAbs.log2 + k = 52 := ⟨52 - n.natAbs.log2, by omega⟩
    rw [ofBits_bitsOfWhole hzero hk, value?, valueOf_widened]

end Binary64

end GridTick
