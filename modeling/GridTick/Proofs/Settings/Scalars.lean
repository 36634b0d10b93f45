import GridTick.Proofs.Settings.Spelling
import GridTick.Proofs.Settings.Numeral

/-!
# GridTick.Proofs.Settings.Scalars — values that are no sequence and no map

A scalar is nothing, a truth value, a text or a whole number.  An entry of the configuration takes scalars of one kind,
and refuses any other with a cause that names what was found.  Reading a scalar's text for an entry comes to the same as
offering the scalar to it.

* `Scalar`, `Scalar.Written`: scalars, and their texts.
* `Scalar.asFlag`, `Scalar.asWord`: the value that an entry takes from a scalar, or the cause why it takes none.
* `wrongKind_written`, `boolean_written`, `natural_written`: reading a text and offering the scalar agree.
-/

namespace GridTick

/-- A value of a configuration text that has no parts. -/
inductive Scalar where
  | null
  | boolean (b : Bool)
  | text (s : String)
  | integer (n : Int)
deriving DecidableEq, Repr

namespace Scalar

/-- What a scalar is found to be; a whole number that fits no word is found as a double. -/
def found : Scalar → Found
  | .null => .null
  | .boolean b => .boolean b
  | .text s => .text s
  | .integer n => if -9223372036854775808 ≤ n ∧ n ≤ significandLimit then .integer n else .floating (nearby n)

/-- A truth value, or why there is none. -/
def asFlag : Scalar → Except Refusal Bool
  | .boolean b => .ok b
  | v => .error (.wrongType v.found .boolean)

/-- A word, or why there is none: a negative number that is kept as one has the right type and the wrong value. -/
def asWord (expected : Expected) : Scalar → Except Refusal UInt64
  | .integer n =>
    if 0 ≤ n ∧ n ≤ significandLimit then .ok (UInt64.ofNat n.toNat)
    else if -9223372036854775808 ≤ n ∧ n < 0 then .error (.wrongValue (.integer n) expected)
    else .error (.wrongType (Scalar.integer n).found expected)
  | v => .error (.wrongType v.found expected)

/-- The texts of a scalar: a word of the format, a text in any spelling, or at most three hundred plain digits. -/
inductive Written : Scalar → List Char → Prop where
  | null : Written .null ['n', 'u', 'l', 'l']
  | yes : Written (.boolean true) ['t', 'r', 'u', 'e']
  | no : Written (.boolean false) ['f', 'a', 'l', 's', 'e']
  | text {s : String} {q : List Char} : InQuotes s q → Written (.text s) q
  | natural {n : Int} : 0 ≤ n → (Nat.toDigits 10 n.natAbs).length ≤ 300 →
      Written (.integer n) (Nat.toDigits 10 n.natAbs)
  | negative {n : Int} : n < 0 → (Nat.toDigits 10 n.natAbs).length ≤ 300 →
      Written (.integer n) ('-' :: Nat.toDigits 10 n.natAbs)

end Scalar

/-- What has come of a reading that went as far as `s`. -/
def told {α : Type} (r : Except Refusal α) (s : List Char) : Read α :=
  match r with
  | .ok a => .ok (a, s)
  | .error cause => .error (.refused cause)

/-! ## Numbers -/

/-- A number as it is kept is found as the scalar is. -/
theorem found_ofInt (n : Int) : (Numeral.ofInt n).found = (Scalar.integer n).found := by
  have hlimit := significandLimit_eq
  rw [Numeral.ofInt, Scalar.found]
  by_cases hnatural : 0 ≤ n ∧ n ≤ significandLimit
  · rw [if_pos hnatural, if_pos (by omega), Numeral.found, Int.toNat_of_nonneg hnatural.1]
  · rw [if_neg hnatural]
    by_cases hnegative : -9223372036854775808 ≤ n ∧ n < 0
    · have hback : -(n.natAbs : Int) = n := by omega
      rw [if_pos hnegative, if_pos (by omega), Numeral.found, hback]
    · rw [if_neg hnegative, if_neg (by omega), Numeral.found]

/-- A word is taken from a number that is kept as one. -/
theorem asWord_integer (n : Int) (expected : Expected) : (Scalar.integer n).asWord expected =
    match Numeral.ofInt n with
    | .whole m => .ok (UInt64.ofNat m)
    | .negative m => .error (.wrongValue (.integer (-m)) expected)
    | .floating v => .error (.wrongType (.floating v) expected) := by
  rw [Scalar.asWord, Numeral.ofInt, Scalar.found]
  by_cases hnatural : 0 ≤ n ∧ n ≤ significandLimit
  · rw [if_pos hnatural, if_pos hnatural]
  · rw [if_neg hnatural, if_neg hnatural]
    by_cases hnegative : -9223372036854775808 ≤ n ∧ n < 0
    · have hback : -(n.natAbs : Int) = n := by omega
      rw [if_pos hnegative, if_pos hnegative]
      dsimp only
      rw [hback]
    · rw [if_neg hnegative, if_neg hnegative, if_neg (by omega)]

theorem exists_digit_cons (n : Nat) : ∃ c ds, Nat.toDigits 10 n = c :: ds ∧ c.isDigit = true := by
  cases hdigits : Nat.toDigits 10 n with
  | nil => exact absurd hdigits Nat.toDigits_ne_nil
  | cons c ds =>
    have hmem : c ∈ Nat.toDigits 10 n := by
      rw [hdigits]
      exact List.mem_cons_self
    exact ⟨c, ds, rfl, Nat.isDigit_of_mem_toDigits (by decide) (by decide) hmem⟩

/-- A digit opens no other scalar, and is no blank. -/
theorem digit_apart {c : Char} (h : c.isDigit = true) :
    c ≠ 'n' ∧ c ≠ 't' ∧ c ≠ 'f' ∧ c ≠ '"' ∧ c ≠ '[' ∧ c ≠ '\x7b' ∧ c ≠ '-' ∧ isBlank c = false := by
  have hne : ∀ d : Char, d.isDigit = false → c ≠ d := by
    rintro d hd rfl
    rw [h] at hd
    cases hd
  have hblank : isBlank c = false := by
    simp only [isBlank, Bool.or_eq_false_iff, beq_eq_false_iff_ne]
    exact ⟨⟨⟨hne _ rfl, hne _ rfl⟩, hne _ rfl⟩, hne _ rfl⟩
  exact ⟨hne _ rfl, hne _ rfl, hne _ rfl, hne _ rfl, hne _ rfl, hne _ rfl, hne _ rfl, hblank⟩

theorem wrongKind_digit {c : Char} (h : c.isDigit = true) (expected : Expected) {n : Numeral} {s rest : List Char}
    (hnumeral : numeral false (c :: s) = .ok (n, rest)) :
    wrongKind expected (c :: s) = .refused (.wrongType n.found expected) := by
  obtain ⟨hn, ht, hf, hq, hl, hb, hm, -⟩ := digit_apart h
  unfold wrongKind
  dsimp only
  split
  · contradiction
  · rename_i heq
    exact absurd (List.cons.inj heq).1 hn
  · rename_i heq
    exact absurd (List.cons.inj heq).1 ht
  · rename_i heq
    exact absurd (List.cons.inj heq).1 hf
  · rename_i heq
    exact absurd (List.cons.inj heq).1 hq
  · rename_i heq
    exact absurd (List.cons.inj heq).1 hl
  · rename_i heq
    exact absurd (List.cons.inj heq).1 hb
  · rename_i heq
    exact absurd (List.cons.inj heq).1 hm
  · rename_i heq
    cases heq
    rw [if_pos h, hnumeral]

theorem numeral_natural {n : Int} {s : List Char} (hn : 0 ≤ n) (hlong : (Nat.toDigits 10 n.natAbs).length ≤ 300)
    (hs : Stops s) : numeral false (Nat.toDigits 10 n.natAbs ++ s) = .ok (Numeral.ofInt n, s) := by
  have hread := numeral_toDigits hlong hs
  rwa [decide_eq_false (by omega)] at hread

theorem numeral_negative {n : Int} {s : List Char} (hn : n < 0) (hlong : (Nat.toDigits 10 n.natAbs).length ≤ 300)
    (hs : Stops s) : numeral true (Nat.toDigits 10 n.natAbs ++ s) = .ok (Numeral.ofInt n, s) := by
  have hread := numeral_toDigits hlong hs
  rwa [decide_eq_true hn] at hread

/-! ## Scalars of the wrong kind -/

theorem wrongKind_written {v : Scalar} {t s : List Char} (h : v.Written t) (hs : Stops s) (expected : Expected) :
    wrongKind expected (t ++ s) = .refused (.wrongType v.found expected) := by
  cases h with
  | null => rfl
  | yes => rfl
  | no => rfl
  | text hq =>
    obtain ⟨q, rfl⟩ := hq.exists_cons
    rw [List.cons_append, wrongKind, quotedText_inQuotes hq]
    rfl
  | @natural n hn hlong =>
    have hread := numeral_natural hn hlong hs
    obtain ⟨c, ds, hdigits, hc⟩ := exists_digit_cons n.natAbs
    rw [hdigits, List.cons_append] at hread ⊢
    rw [wrongKind_digit hc expected hread, found_ofInt]
  | @negative n hn hlong => rw [List.cons_append, wrongKind, numeral_negative hn hlong hs, ← found_ofInt]

/-- A scalar's text opens with a character of its own. -/
theorem Scalar.Written.exists_cons {v : Scalar} {t : List Char} (h : v.Written t) :
    ∃ c rest, t = c :: rest ∧ isBlank c = false := by
  cases h with
  | null => exact ⟨'n', _, rfl, rfl⟩
  | yes => exact ⟨'t', _, rfl, rfl⟩
  | no => exact ⟨'f', _, rfl, rfl⟩
  | text hq =>
    obtain ⟨q, rfl⟩ := hq.exists_cons
    exact ⟨'"', q, rfl, rfl⟩
  | @natural n _ _ =>
    obtain ⟨c, ds, hdigits, hc⟩ := exists_digit_cons n.natAbs
    exact ⟨c, ds, hdigits, (digit_apart hc).2.2.2.2.2.2.2⟩
  | negative _ _ => exact ⟨'-', _, rfl, rfl⟩

theorem skipBlank_written {v : Scalar} {b t : List Char} (hb : Blanks b) (h : v.Written t) (s : List Char) :
    skipBlank (b ++ (t ++ s)) = t ++ s := by
  obtain ⟨c, rest, rfl, hc⟩ := h.exists_cons
  rw [List.cons_append, skipBlank_append_cons hb hc]

/-! ## Truth values and words -/

theorem boolean_other {c : Char} {s s' : List Char} (hskip : skipBlank s = c :: s') (ht : c ≠ 't') (hf : c ≠ 'f') :
    boolean s = .error (wrongKind .boolean (c :: s')) := by
  unfold boolean
  rw [hskip]
  split
  · rename_i heq
    cases heq
    exact absurd rfl ht
  · rename_i heq
    cases heq
    exact absurd rfl hf
  · rfl

/-- Reading a truth value comes to the same as offering the scalar. -/
theorem boolean_written {v : Scalar} {b t s : List Char} (hb : Blanks b) (h : v.Written t) (hs : Stops s) :
    boolean (b ++ (t ++ s)) = told v.asFlag s := by
  have hskip := skipBlank_written hb h s
  have hwrong := wrongKind_written h hs .boolean
  cases h with
  | null =>
    rw [boolean_other hskip (by decide) (by decide)]
    exact congrArg _ hwrong
  | yes =>
    rw [boolean, hskip]
    rfl
  | no =>
    rw [boolean, hskip]
    rfl
  | text hq =>
    obtain ⟨q, rfl⟩ := hq.exists_cons
    rw [boolean_other hskip (by decide) (by decide)]
    exact congrArg _ hwrong
  | @natural n _ _ =>
    obtain ⟨c, ds, hdigits, hc⟩ := exists_digit_cons n.natAbs
    obtain ⟨-, ht, hf, -⟩ := digit_apart hc
    rw [hdigits] at hskip hwrong ⊢
    rw [boolean_other hskip ht hf]
    exact congrArg _ hwrong
  | negative _ _ =>
    rw [boolean_other hskip (by decide) (by decide)]
    exact congrArg _ hwrong

theorem natural_other {c : Char} {s s' : List Char} {expected : Expected} (hskip : skipBlank s = c :: s')
    (hminus : c ≠ '-') (hdigit : c.isDigit = false) : natural expected s = .error (wrongKind expected (c :: s')) := by
  unfold natural
  rw [hskip]
  dsimp only
  split
  · rename_i heq
    cases heq
    exact absurd rfl hminus
  · rename_i heq
    cases heq
    rw [if_neg (by simp [hdigit])]
  · contradiction

theorem natural_digit {c : Char} {s s' rest : List Char} {n : Int} {expected : Expected}
    (hskip : skipBlank s = c :: s') (hdigit : c.isDigit = true)
    (hnumeral : numeral false (c :: s') = .ok (Numeral.ofInt n, rest)) :
    natural expected s = told ((Scalar.integer n).asWord expected) rest := by
  unfold natural
  rw [hskip]
  dsimp only
  split
  · rename_i heq
    cases heq
    cases hdigit
  · rename_i heq
    cases heq
    rw [if_pos hdigit, hnumeral, asWord_integer]
    cases Numeral.ofInt n with
    | whole m => rfl
    | negative m => rfl
    | floating v => rfl
  · contradiction

theorem natural_minus {s s' rest : List Char} {n : Int} {expected : Expected} (hskip : skipBlank s = '-' :: s')
    (hnumeral : numeral true s' = .ok (Numeral.ofInt n, rest)) :
    natural expected s = told ((Scalar.integer n).asWord expected) rest := by
  unfold natural
  rw [hskip]
  dsimp only
  split
  · rename_i heq
    cases heq
    rw [hnumeral, asWord_integer]
    cases Numeral.ofInt n with
    | whole m => rfl
    | negative m => rfl
    | floating v => rfl
  · rename_i hother heq
    exact absurd (List.cons.inj heq).1.symm hother
  · contradiction

/-- Reading a word comes to the same as offering the scalar. -/
theorem natural_written {v : Scalar} {b t s : List Char} (hb : Blanks b) (h : v.Written t) (hs : Stops s)
    (expected : Expected) : natural expected (b ++ (t ++ s)) = told (v.asWord expected) s := by
  have hskip := skipBlank_written hb h s
  have hwrong := wrongKind_written h hs expected
  cases h with
  | null =>
    rw [natural_other hskip (by decide) rfl]
    exact congrArg _ hwrong
  | yes =>
    rw [natural_other hskip (by decide) rfl]
    exact congrArg _ hwrong
  | no =>
    rw [natural_other hskip (by decide) rfl]
    exact congrArg _ hwrong
  | text hq =>
    obtain ⟨q, rfl⟩ := hq.exists_cons
    rw [natural_other hskip (by decide) rfl]
    exact congrArg _ hwrong
  | @natural n hn hlong =>
    have hread := numeral_natural hn hlong hs
    obtain ⟨c, ds, hdigits, hc⟩ := exists_digit_cons n.natAbs
    rw [hdigits] at hskip hread ⊢
    exact natural_digit hskip hc hread
  | negative hn hlong => exact natural_minus hskip (numeral_negative hn hlong hs)

/-! ## Every scalar has a text -/

/-- A whole number that has a text: its digits are not too many. -/
def Scalar.Short : Scalar → Prop
  | .integer n => (Nat.toDigits 10 n.natAbs).length ≤ 300
  | _ => True

theorem Scalar.exists_written {v : Scalar} (h : v.Short) : ∃ t, v.Written t := by
  cases v with
  | null => exact ⟨_, .null⟩
  | boolean b =>
    cases b with
    | false => exact ⟨_, .no⟩
    | true => exact ⟨_, .yes⟩
  | text s =>
    obtain ⟨q, hq⟩ := exists_inQuotes s
    exact ⟨q, .text hq⟩
  | integer n =>
    by_cases hn : 0 ≤ n
    · exact ⟨_, .natural hn h⟩
    · exact ⟨_, .negative (by omega) h⟩

end GridTick
