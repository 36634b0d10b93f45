import Mathlib.Algebra.Order.Field.Power
import Mathlib.Data.Nat.Find
import Mathlib.Tactic.NormNum
import Mathlib.Tactic.GCongr
import GridTick.Settings.Scalar
import GridTick.Proofs.Number.Rounding

/-!
# GridTick.Proofs.Settings.Numeral — whole numbers in digits

A whole number in plain digits is kept as it is when it fits a word.  Of a longer one the leading digits are taken in
as long as they fit; they are rounded to a double, and so is the power of ten for the digits left over, and the product
of the two stands for the number.  With three hundred digits or fewer this is never too large for a double.

* `surplus`, `nearby`, `Numeral.ofInt`: the digits left over, the double, and the number as it is kept.
* `accumulate_toDigits`: how many digits are taken in.
* `scaledDouble_nearby`: the product is a double.
* `Stops`, `numeral_toDigits`: a whole number ahead is read to its last digit and kept as `Numeral.ofInt`.
-/

namespace GridTick

/-! ## Numbers that are too long -/

theorem exists_surplus (n : Nat) : ∃ k, n / tenTo k ≤ significandLimit :=
  ⟨n, (Nat.div_eq_of_lt (Nat.lt_pow_self (by decide))).trans_le (Nat.zero_le _)⟩

/-- The fewest last digits that must go for the rest of a number to fit a word. -/
def surplus (n : Nat) : Nat := Nat.find (exists_surplus n)

/-- The double that stands for a whole number: its leading digits and the power of ten for the others are rounded
apart, and then their product is. -/
def nearby (n : Int) : Binary64 :=
  let k := surplus n.natAbs
  let lead := Binary64.ofRatio (n < 0) ⟨n.natAbs / tenTo k, 1⟩
  if k = 0 then lead else lead.scaleUp (Binary64.powerOfTen k)

/-- A whole number as it is kept: in a word, signed if it is negative, or as a double. -/
def Numeral.ofInt (n : Int) : Numeral :=
  if 0 ≤ n ∧ n ≤ significandLimit then .whole n.toNat
  else if -9223372036854775808 ≤ n ∧ n < 0 then .negative n.natAbs
  else .floating (nearby n)

theorem div_tenTo_zero (n : Nat) : n / tenTo 0 = n := Nat.div_one n

theorem div_tenTo_succ (n k : Nat) : n / tenTo (k + 1) = n / 10 / tenTo k := by
  rw [Nat.div_div_eq_div_mul]
  exact congrArg (n / ·) Nat.pow_succ'

theorem significandLimit_eq : significandLimit = 18446744073709551615 := rfl

theorem surplus_of_le {n : Nat} (h : n ≤ significandLimit) : surplus n = 0 := by
  refine (Nat.find_eq_zero _).mpr ?_
  rwa [div_tenTo_zero]

theorem div_surplus_le (n : Nat) : n / tenTo (surplus n) ≤ significandLimit := Nat.find_spec (exists_surplus n)

theorem surplus_of_lt {n : Nat} (h : significandLimit < n) : surplus n = surplus (n / 10) + 1 := by
  refine (Nat.find_eq_iff _).mpr ⟨?_, ?_⟩
  · rw [div_tenTo_succ]
    exact div_surplus_le (n / 10)
  · rintro (_ | k) hk
    · rw [div_tenTo_zero]
      omega
    · rw [div_tenTo_succ]
      exact Nat.find_min (exists_surplus (n / 10)) (Nat.lt_of_succ_lt_succ hk)

theorem surplus_le {n k : Nat} (h : n < tenTo k) : surplus n ≤ k :=
  Nat.find_min' _ ((Nat.div_eq_of_lt h).trans_le (Nat.zero_le _))

/-! ## Taking in digits -/

theorem digitValue_digitChar {d : Nat} (h : d < 10) : digitValue d.digitChar = d := by
  decide +revert

theorem accumulate_cons_of_le {limit n : Nat} {d : Char} {ds : List Char} (h : n * 10 + digitValue d ≤ limit) :
    accumulate limit n (d :: ds) = accumulate limit (n * 10 + digitValue d) ds := by
  rw [accumulate, if_neg (by omega)]

theorem accumulate_cons_of_lt {limit n : Nat} {d : Char} {ds : List Char} (h : limit < n * 10 + digitValue d) :
    accumulate limit n (d :: ds) = (n, d :: ds) := by
  rw [accumulate, if_pos h]

/-- Digits behind those that were all taken in are tried in their turn. -/
theorem accumulate_append_of_all {limit n m : Nat} {ds : List Char} (h : accumulate limit n ds = (m, []))
    (ds' : List Char) : accumulate limit n (ds ++ ds') = accumulate limit m ds' := by
  induction ds generalizing n with
  | nil =>
    rw [accumulate] at h
    cases h
    rfl
  | cons d ds ih =>
    by_cases hd : n * 10 + digitValue d ≤ limit
    · rw [accumulate_cons_of_le hd] at h
      rw [List.cons_append, accumulate_cons_of_le hd, ih h]
    · rw [accumulate_cons_of_lt (by omega)] at h
      cases h

/-- Digits behind one that was left over are left over too. -/
theorem accumulate_append_of_some {limit n m : Nat} {ds rest : List Char} (h : accumulate limit n ds = (m, rest))
    (hrest : rest ≠ []) (ds' : List Char) : accumulate limit n (ds ++ ds') = (m, rest ++ ds') := by
  induction ds generalizing n with
  | nil =>
    rw [accumulate] at h
    cases h
    exact absurd rfl hrest
  | cons d ds ih =>
    by_cases hd : n * 10 + digitValue d ≤ limit
    · rw [accumulate_cons_of_le hd] at h
      rw [List.cons_append, accumulate_cons_of_le hd, ih h]
    · rw [accumulate_cons_of_lt (by omega)] at h
      cases h
      exact accumulate_cons_of_lt (by omega)

/-- Of the digits of a number the leading ones are taken in, and just the surplus is left over. -/
theorem accumulate_toDigits (n : Nat) : ∃ rest, rest.length = surplus n ∧
    accumulate significandLimit 0 (Nat.toDigits 10 n) = (n / tenTo (surplus n), rest) := by
  induction n using Nat.strongRecOn with
  | ind n ih =>
    have hlimit := significandLimit_eq
    by_cases hten : n < 10
    · have hdigit := digitValue_digitChar hten
      rw [surplus_of_le (by omega), Nat.toDigits_of_lt_base hten, accumulate_cons_of_le (by omega), accumulate,
        div_tenTo_zero, hdigit, Nat.zero_mul, Nat.zero_add]
      exact ⟨[], rfl, rfl⟩
    · obtain ⟨rest, hlength, hrest⟩ := ih (n / 10) (by omega)
      have hdigit := digitValue_digitChar (d := n % 10) (by omega)
      have hvalue : n / 10 * 10 + digitValue (n % 10).digitChar = n := by omega
      rw [Nat.toDigits_of_base_le (by decide) (by omega)]
      by_cases hshort : n / 10 ≤ significandLimit
      · -- all digits but the last are taken in
        rw [surplus_of_le hshort, List.length_eq_zero_iff] at hlength
        rw [surplus_of_le hshort, hlength, div_tenTo_zero] at hrest
        rw [accumulate_append_of_all hrest]
        by_cases hfits : n ≤ significandLimit
        · rw [surplus_of_le hfits, accumulate_cons_of_le (by omega), accumulate, hvalue, div_tenTo_zero]
          exact ⟨[], rfl, rfl⟩
        · rw [surplus_of_lt (by omega), surplus_of_le hshort, accumulate_cons_of_lt (by omega)]
          exact ⟨_, rfl, by rw [div_tenTo_succ, div_tenTo_zero]⟩
      · have hsurplus := surplus_of_lt (n := n) (by omega)
        have hpos := surplus_of_lt (n := n / 10) (by omega)
        have hsome : rest ≠ [] := by
          rintro rfl
          rw [hpos] at hlength
          cases hlength
        rw [accumulate_append_of_some hrest hsome, hsurplus]
        refine ⟨rest ++ [(n % 10).digitChar], ?_, ?_⟩
        · rw [List.length_append, hlength, List.length_singleton]
        · rw [div_tenTo_succ]

/-! ## The double of a long number -/

theorem productRatio_value (m₁ : Nat) (e₁ : Int) (m₂ : Nat) (e₂ : Int) :
    (Binary64.productRatio m₁ e₁ m₂ e₂).value = (m₁ * 2 ^ e₁) * (m₂ * 2 ^ e₂) := by
  rw [Binary64.productRatio, Ratio.value, mul_mul_mul_comm, ← zpow_add₀ two_ne_zero, two_zpow_eq]
  push_cast
  rw [mul_div_assoc]

theorem double_precision : FloatFormat.double.precision = 53 := rfl

theorem double_minExponent : FloatFormat.double.minExponent = -1074 := rfl

theorem double_maxExponent : FloatFormat.double.maxExponent = 971 := rfl

/-- A whole number that is not too long is rounded to a finite double, at most four times as large. -/
theorem ofRatio_whole (negative : Bool) {n k : Nat} (h : n < twoTo k) (hk : k ≤ 1022) :
    ∃ m e, Binary64.ofRatio negative ⟨n, 1⟩ = .finite negative m e ∧ (m : ℚ) * 2 ^ e ≤ 4 * n + 1 := by
  have hvalue : (Ratio.mk n 1).value = n := by rw [Ratio.value, Nat.cast_one, div_one]
  have hlt : (Ratio.mk n 1).value < 2 ^ (k : Int) := by
    rw [hvalue, zpow_natCast]
    exact_mod_cast h
  have hmax : (k : Int) - FloatFormat.double.precision + 2 ≤ FloatFormat.double.maxExponent := by
    rw [double_precision, double_maxExponent]
    omega
  obtain ⟨m, e, hnearest⟩ := FloatFormat.exists_nearest (f := .double) Nat.one_pos hlt hmax (by decide)
  refine ⟨m, e, by rw [Binary64.ofRatio, hnearest], ?_⟩
  have hle := FloatFormat.nearest_le (by decide) Nat.one_pos hnearest
  have hsmall : (2 : ℚ) ^ ((FloatFormat.double.precision : Int) + FloatFormat.double.minExponent) ≤ 1 := by
    rw [double_precision, double_minExponent]
    exact zpow_le_one_of_nonpos₀ (by norm_num) (by norm_num)
  rw [hvalue] at hle
  refine hle.trans (max_le ?_ ?_)
  · exact le_add_of_nonneg_right zero_le_one
  · exact hsmall.trans (le_add_of_nonneg_left (by positivity))

/-- The product of two whole numbers, each rounded to a double, is finite unless it is very long. -/
theorem scaleUp_whole (negative : Bool) {a b k : Nat} (h : (4 * a + 1) * (4 * b + 1) < twoTo k) (hk : k ≤ 1022) :
    ∃ m e, (Binary64.ofRatio negative ⟨a, 1⟩).scaleUp (Binary64.ofRatio false ⟨b, 1⟩) = .finite negative m e := by
  have ha : 4 * a + 1 ≤ (4 * a + 1) * (4 * b + 1) := Nat.le_mul_of_pos_right _ (Nat.succ_pos _)
  have hb : 4 * b + 1 ≤ (4 * a + 1) * (4 * b + 1) := Nat.le_mul_of_pos_left _ (Nat.succ_pos _)
  obtain ⟨m₁, e₁, heq₁, hle₁⟩ := ofRatio_whole negative (n := a) (by omega) hk
  obtain ⟨m₂, e₂, heq₂, hle₂⟩ := ofRatio_whole false (n := b) (by omega) hk
  have hproduct : (Binary64.productRatio m₁ e₁ m₂ e₂).value < 2 ^ (k : Int) := by
    rw [productRatio_value, zpow_natCast]
    calc (m₁ * 2 ^ e₁ : ℚ) * (m₂ * 2 ^ e₂) ≤ (4 * a + 1) * (4 * b + 1) := by gcongr
      _ < 2 ^ k := by exact_mod_cast h
  have hden : 0 < (Binary64.productRatio m₁ e₁ m₂ e₂).denominator := Nat.two_pow_pos _
  have hmax : (k : Int) - FloatFormat.double.precision + 2 ≤ FloatFormat.double.maxExponent := by
    rw [double_precision, double_maxExponent]
    omega
  obtain ⟨m, e, hnearest⟩ := FloatFormat.exists_nearest (f := .double) hden hproduct hmax (by decide)
  rw [heq₁, heq₂, Binary64.scaleUp, Binary64.ofRatio, hnearest]
  exact ⟨m, e, rfl⟩

/-- Three decimal digits take at most ten bits. -/
theorem tenTo_lt_twoTo {d c : Nat} (h : d ≤ 3 * c) : 25 * tenTo d < twoTo (5 + 10 * c) := by
  have hthree : 10 ^ (3 * c) ≤ 2 ^ (10 * c) := by
    rw [Nat.pow_mul, Nat.pow_mul]
    exact Nat.pow_le_pow_left (by decide) c
  have hd : tenTo d ≤ 2 ^ (10 * c) := (Nat.pow_le_pow_right (by decide) h).trans hthree
  have hpos : 0 < 2 ^ (10 * c) := Nat.two_pow_pos _
  have hsum : twoTo (5 + 10 * c) = 32 * 2 ^ (10 * c) := Nat.pow_add 2 5 (10 * c)
  omega

/-- The product for a number of at most three hundred digits is finite. -/
theorem scaleUp_surplus (negative : Bool) {n d : Nat} (h : n < tenTo d) (hd : d ≤ 3 * 100) : ∃ m e,
    (Binary64.ofRatio negative ⟨n / tenTo (surplus n), 1⟩).scaleUp (Binary64.powerOfTen (surplus n)) =
      .finite negative m e := by
  have hten : tenTo (surplus n) ≤ tenTo d := Nat.pow_le_pow_right (by decide) (surplus_le h)
  have hlead : n / tenTo (surplus n) ≤ n := Nat.div_le_self _ _
  have hback : n / tenTo (surplus n) * tenTo (surplus n) ≤ n := Nat.div_mul_le_self _ _
  refine scaleUp_whole negative (k := 5 + 10 * 100) ?_ (by decide)
  calc (4 * (n / tenTo (surplus n)) + 1) * (4 * tenTo (surplus n) + 1)
      = 16 * (n / tenTo (surplus n) * tenTo (surplus n)) + 4 * (n / tenTo (surplus n)) + 4 * tenTo (surplus n) + 1 := by
        ring
    _ ≤ 25 * tenTo d := by omega
    _ < twoTo (5 + 10 * 100) := tenTo_lt_twoTo hd

theorem scaledDouble_nearby {n : Int} {d : Nat} (h : n.natAbs < tenTo d) (hd : d ≤ 3 * 100)
    (hk : surplus n.natAbs ≠ 0) :
    scaledDouble (n < 0) (n.natAbs / tenTo (surplus n.natAbs)) (surplus n.natAbs) = .ok (nearby n) := by
  have hle := surplus_le h
  obtain ⟨m, e, hfinite⟩ := scaleUp_surplus (n < 0) h hd
  have hlong : ¬ 308 < (surplus n.natAbs : Int) := by omega
  have hpos : ¬ (surplus n.natAbs : Int) < 0 := by omega
  simp only [nearby, if_neg hk, scaledDouble, if_neg hpos, if_neg hlong, Int.toNat_natCast, hfinite]

/-! ## A number ahead -/

/-- What may follow a scalar: the end of the text, a blank, a comma or a closing brace. -/
def Stops (s : List Char) : Prop := ∀ c ∈ s.head?, isBlank c = true ∨ c = ',' ∨ c = '\x7d'

/-- Such a character belongs to no number. -/
theorem Stops.head {c : Char} {s : List Char} (h : Stops (c :: s)) :
    c.isDigit = false ∧ c ≠ '.' ∧ c ≠ 'e' ∧ c ≠ 'E' := by
  have hc := h c rfl
  simp only [isBlank, Bool.or_eq_true, beq_iff_eq] at hc
  rcases hc with (((rfl | rfl) | rfl) | rfl) | rfl | rfl
  all_goals decide

theorem digitsAhead_append {ds s : List Char} (hds : ∀ c ∈ ds, c.isDigit = true) (hs : Stops s) :
    digitsAhead (ds ++ s) = (ds, s) := by
  have hnone : s.takeWhile Char.isDigit = [] ∧ s.dropWhile Char.isDigit = s := by
    cases s with
    | nil => exact ⟨rfl, rfl⟩
    | cons c s =>
      have hc := hs.head.1
      exact ⟨List.takeWhile_cons_of_neg (by simp [hc]), List.dropWhile_cons_of_neg (by simp [hc])⟩
  rw [digitsAhead, List.span_eq_takeWhile_dropWhile, List.takeWhile_append_of_pos hds, List.dropWhile_append_of_pos hds,
    hnone.1, hnone.2, List.append_nil]

theorem head_toDigits {n : Nat} (h : 0 < n) : (Nat.toDigits 10 n).head? ≠ some '0' := by
  induction n using Nat.strongRecOn with
  | ind n ih =>
    by_cases hten : n < 10
    · have hdigits : ∀ d < 10, 0 < d → Nat.digitChar d ≠ '0' := by decide
      have hdigit := hdigits n hten h
      rw [Nat.toDigits_of_lt_base hten]
      simpa using hdigit
    · rw [Nat.toDigits_of_base_le (by decide) (by omega)]
      have hhead := ih (n / 10) (by omega) (by omega)
      have hsome := Nat.toDigits_ne_nil (b := 10) (n := n / 10)
      cases hdigits : Nat.toDigits 10 (n / 10) with
      | nil => exact absurd hdigits hsome
      | cons d ds =>
        rw [hdigits] at hhead
        exact hhead

/-- Digits that are not led by a zero are taken in. -/
theorem numeral_digits {ds s : List Char} {negative : Bool} (hahead : digitsAhead s = (ds, s')) (hds : ds ≠ [])
    (hzero : ∀ d ds', ds ≠ '0' :: d :: ds') : numeral negative s =
      afterInteger negative (accumulate significandLimit 0 ds).1 (accumulate significandLimit 0 ds).2 s' := by
  unfold numeral
  rw [hahead]
  split
  · rename_i heq
    cases heq
    exact absurd rfl hds
  · rename_i heq
    cases heq
    exact absurd rfl (hzero _ _)
  · rename_i heq
    cases heq
    rfl

theorem afterInteger_stops {s : List Char} (hs : Stops s) (negative : Bool) (significand : Nat) (unused : List Char) :
    afterInteger negative significand unused s = match unused with
      | [] => .ok (wholeNumeral negative significand, s)
      | unused => (scaledDouble negative significand unused.length).map fun v => (.floating v, s) := by
  unfold afterInteger
  split
  · exact absurd rfl hs.head.2.1
  · exact absurd rfl hs.head.2.2.1
  · exact absurd rfl hs.head.2.2.2
  · rfl

theorem wholeNumeral_ofInt {n : Int} (h : n.natAbs ≤ significandLimit) :
    wholeNumeral (n < 0) n.natAbs = Numeral.ofInt n := by
  have hlimit := significandLimit_eq
  have hlow : twoTo 63 = 9223372036854775808 := rfl
  have hnearby : nearby n = Binary64.ofRatio (n < 0) ⟨n.natAbs, 1⟩ := by
    rw [nearby, surplus_of_le h, if_pos rfl, div_tenTo_zero]
  unfold wholeNumeral Numeral.ofInt
  by_cases hneg : n < 0
  · rw [if_neg (by simp [hneg])]
    by_cases hfits : -9223372036854775808 ≤ n
    · rw [if_neg (by omega), if_neg (by omega), if_pos ⟨hfits, hneg⟩]
    · rw [if_pos (by omega), if_neg (by omega), if_neg (by omega), hnearby, decide_eq_true hneg]
  · rw [if_pos (by simp [hneg]), if_pos (by omega)]
    congr 1
    omega

/-- A whole number of at most three hundred digits is read to its last digit. -/
theorem numeral_toDigits {n : Int} {s : List Char} (hn : (Nat.toDigits 10 n.natAbs).length ≤ 300) (hs : Stops s) :
    numeral (n < 0) (Nat.toDigits 10 n.natAbs ++ s) = .ok (Numeral.ofInt n, s) := by
  have hdigits : ∀ c ∈ Nat.toDigits 10 n.natAbs, c.isDigit = true := fun c hc =>
    Nat.isDigit_of_mem_toDigits (by decide) (by decide) hc
  have hzero : ∀ d ds, Nat.toDigits 10 n.natAbs ≠ '0' :: d :: ds := by
    intro d ds heq
    by_cases hpos : 0 < n.natAbs
    · exact head_toDigits hpos (by rw [heq]; rfl)
    · rw [Nat.eq_zero_of_not_pos hpos, Nat.toDigits_zero] at heq
      cases heq
  obtain ⟨rest, hlength, haccumulate⟩ := accumulate_toDigits n.natAbs
  rw [numeral_digits (digitsAhead_append hdigits hs) Nat.toDigits_ne_nil hzero, haccumulate, afterInteger_stops hs]
  by_cases hshort : n.natAbs ≤ significandLimit
  · rw [surplus_of_le hshort, List.length_eq_zero_iff] at hlength
    rw [hlength, surplus_of_le hshort, div_tenTo_zero]
    dsimp only
    rw [wholeNumeral_ofInt hshort]
  · have hlimit := significandLimit_eq
    have hsurplus : surplus n.natAbs ≠ 0 := by
      rw [surplus_of_lt (by omega)]
      exact Nat.succ_ne_zero _
    cases rest with
    | nil => exact absurd hlength.symm hsurplus
    | cons d ds =>
      have hbelow : n.natAbs < tenTo (Nat.toDigits 10 n.natAbs).length :=
        (Nat.length_toDigits_le_iff (by decide) Nat.length_toDigits_pos).mp (Nat.le_refl _)
      have hkept : Numeral.ofInt n = .floating (nearby n) := by
        rw [Numeral.ofInt, if_neg (by omega), if_neg (by omega)]
      dsimp only
      rw [hlength, scaledDouble_nearby hbelow hn hsurplus, hkept]
      rfl

end GridTick
