import GridTick.Settings.Scalar

/-!
# GridTick.Proofs.Settings.Spelling — blanks and quoted texts

A text may be written between quotation marks in many ways: most characters may stand for themselves, some have a short
escape, and each has an escape by its code, in one part or, beyond sixteen bits, in two.  However a text is spelled, it
is read back as it was, up to its closing quotation mark and no further.

* `Blanks`, `skipBlank_append`: blanks are passed over.
* `Spelling`, `Spelled`, `InQuotes`: how a character, a list of characters and a text may be written.
* `quotedText_spelled`: every spelling is read back.
* `exists_inQuotes`: every text has a spelling.
-/

namespace GridTick

/-! ## Blanks -/

/-- Characters that may stand between tokens. -/
def Blanks (s : List Char) : Prop := ∀ c ∈ s, isBlank c = true

theorem blanks_nil : Blanks [] := fun _ h => absurd h List.not_mem_nil

theorem blanks_of_all {s : List Char} (h : s.all isBlank = true) : Blanks s := List.all_eq_true.mp h

theorem skipBlank_append {b : List Char} (h : Blanks b) (s : List Char) : skipBlank (b ++ s) = skipBlank s :=
  List.dropWhile_append_of_pos h

theorem skipBlank_cons {c : Char} (h : isBlank c = false) (s : List Char) : skipBlank (c :: s) = c :: s := by
  rw [skipBlank, List.dropWhile_cons_of_neg (by simp [h])]

theorem skipBlank_append_cons {b : List Char} {c : Char} (hb : Blanks b) (h : isBlank c = false) (s : List Char) :
    skipBlank (b ++ c :: s) = c :: s := by
  rw [skipBlank_append hb, skipBlank_cons h]

/-! ## Spellings -/

/-- Characters that have a short escape, each with its letter. -/
def shortEscapes : List (Char × Char) :=
  [('"', '"'), ('\\', '\\'), ('/', '/'), ('\x08', 'b'), ('\x0c', 'f'), ('\n', 'n'), ('\r', 'r'), ('\t', 't')]

/-- A number in four hexadecimal digits, in either case. -/
inductive FourDigits : Nat → List Char → Prop where
  | mk {a b c d : Char} {w x y z : Nat} : hexValue? a = some w → hexValue? b = some x → hexValue? c = some y →
      hexValue? d = some z → FourDigits (((w * 16 + x) * 16 + y) * 16 + z) [a, b, c, d]

/-- What may stand for a character between quotation marks. -/
inductive Spelling : Char → List Char → Prop where
  | plain {c : Char} : 0x20 ≤ c.toNat → c ≠ '"' → c ≠ '\\' → Spelling c [c]
  | short {c letter : Char} : (c, letter) ∈ shortEscapes → Spelling c ['\\', letter]
  | coded {c : Char} {code : List Char} : FourDigits c.toNat code → Spelling c ('\\' :: 'u' :: code)
  | paired {c : Char} {high low : Nat} {code code' : List Char} : FourDigits high code → FourDigits low code' →
      0xD800 ≤ high → high ≤ 0xDBFF → 0xDC00 ≤ low → low ≤ 0xDFFF →
      c.toNat = (high - 0xD800) * 0x400 + (low - 0xDC00) + 0x10000 →
      Spelling c ('\\' :: 'u' :: (code ++ '\\' :: 'u' :: code'))

/-- A list of characters, each in some spelling of its own. -/
inductive Spelled : List Char → List Char → Prop where
  | nil : Spelled [] []
  | cons {c : Char} {cs t ts : List Char} : Spelling c t → Spelled cs ts → Spelled (c :: cs) (t ++ ts)

/-- A text between quotation marks. -/
inductive InQuotes : String → List Char → Prop where
  | mk {s : String} {t : List Char} : Spelled s.toList t → InQuotes s ('"' :: (t ++ ['"']))

/-! ## Reading back -/

theorem hexValue?_utf8Size {c : Char} {n : Nat} (h : hexValue? c = some n) : c.utf8Size = 1 := by
  have hval : c.val ≤ 127 := by
    unfold hexValue? at h
    split at h
    · rename_i hc
      exact UInt32.le_trans hc.2 (by decide)
    · split at h
      · rename_i hc
        exact UInt32.le_trans hc.2 (by decide)
      · split at h
        · rename_i hc
          exact UInt32.le_trans hc.2 (by decide)
        · cases h
  exact Char.utf8Size_eq_one_iff.mpr hval

theorem fourHex_digits {n : Nat} {code : List Char} (h : FourDigits n code) (s : List Char) :
    fourHex (code ++ s) = .ok (n, s) := by
  obtain ⟨ha, hb, hc, hd⟩ := h
  have hbytes : ∀ {a b c d : Char} {w x y z : Nat}, hexValue? a = some w → hexValue? b = some x →
      hexValue? c = some y → hexValue? d = some z → byteCount [a, b, c, d] = 4 := by
    intro a b c d w x y z ha hb hc hd
    simp only [byteCount, List.foldl, hexValue?_utf8Size ha, hexValue?_utf8Size hb, hexValue?_utf8Size hc,
      hexValue?_utf8Size hd]
  simp only [fourHex, List.cons_append, List.nil_append, List.take_succ_cons, List.take_zero, hbytes ha hb hc hd,
    Nat.lt_irrefl, if_false, ha, hb, hc, hd]

/-- The codes of characters leave out the halves of pairs. -/
theorem toNat_not_half (c : Char) : c.toNat < 0xD800 ∨ 0xDFFF < c.toNat := by
  have hvalid := c.valid
  simp only [UInt32.isValidChar, Nat.isValidChar] at hvalid
  exact hvalid.imp id And.left

theorem codedChar_digits {c : Char} {code : List Char} (h : FourDigits c.toNat code) (s : List Char) :
    codedChar (code ++ s) = .ok (c, s) := by
  have hhalf := toNat_not_half c
  have hlow : ¬ (0xDC00 ≤ c.toNat ∧ c.toNat ≤ 0xDFFF) := by omega
  have hhigh : ¬ (0xD800 ≤ c.toNat ∧ c.toNat ≤ 0xDBFF) := by omega
  simp only [codedChar, fourHex_digits h, if_neg hlow, if_neg hhigh, Char.ofNat_toNat]

theorem codedChar_pair {c : Char} {high low : Nat} {code code' : List Char} (hcode : FourDigits high code)
    (hcode' : FourDigits low code') (hhigh : 0xD800 ≤ high ∧ high ≤ 0xDBFF) (hlow : 0xDC00 ≤ low ∧ low ≤ 0xDFFF)
    (hc : c.toNat = (high - 0xD800) * 0x400 + (low - 0xDC00) + 0x10000) (s : List Char) :
    codedChar (code ++ '\\' :: 'u' :: (code' ++ s)) = .ok (c, s) := by
  have hfirst : ¬ (0xDC00 ≤ high ∧ high ≤ 0xDFFF) := by omega
  simp only [codedChar, fourHex_digits hcode, if_neg hfirst, if_pos hhigh, secondHalf, fourHex_digits hcode',
    if_pos hlow, ← hc, Char.ofNat_toNat]

theorem escapedChar_short {c letter : Char} (h : (c, letter) ∈ shortEscapes) (s : List Char) :
    escapedChar (letter :: s) = .ok (c, s) := by
  simp only [shortEscapes, List.mem_cons, List.not_mem_nil, or_false, Prod.mk.injEq] at h
  rcases h with ⟨rfl, rfl⟩ | ⟨rfl, rfl⟩ | ⟨rfl, rfl⟩ | ⟨rfl, rfl⟩ | ⟨rfl, rfl⟩ | ⟨rfl, rfl⟩ | ⟨rfl, rfl⟩ | ⟨rfl, rfl⟩
  all_goals rfl

theorem quotedText_escape {taken s rest : List Char} {c : Char} (h : escapedChar s = .ok (c, rest)) :
    quotedText taken ('\\' :: s) = quotedText (c :: taken) rest := by
  rw [quotedText]
  split
  · rename_i heq
    rw [h] at heq
    cases heq
  · rename_i heq
    rw [h] at heq
    cases heq
    rfl

theorem quotedText_plain {c : Char} (hcode : 0x20 ≤ c.toNat) (hquote : c ≠ '"') (hslash : c ≠ '\\')
    (taken s : List Char) : quotedText taken (c :: s) = quotedText (c :: taken) s := by
  rw [quotedText]
  · rw [if_neg (by omega)]
  · exact hquote
  · exact hslash

/-- One character in any spelling is taken in as itself. -/
theorem quotedText_spelling {c : Char} {t : List Char} (h : Spelling c t) (taken s : List Char) :
    quotedText taken (t ++ s) = quotedText (c :: taken) s := by
  cases h with
  | plain hcode hquote hslash => exact quotedText_plain hcode hquote hslash taken s
  | short hshort => exact quotedText_escape (escapedChar_short hshort s)
  | coded hcode => exact quotedText_escape (codedChar_digits hcode s)
  | paired hcode hcode' hlo hhi hlo' hhi' hc =>
    simp only [List.cons_append, List.append_assoc]
    exact quotedText_escape (codedChar_pair hcode hcode' ⟨hlo, hhi⟩ ⟨hlo', hhi'⟩ hc s)

/-- A spelled text is read up to its closing quotation mark. -/
theorem quotedText_spelled {cs t : List Char} (h : Spelled cs t) (taken s : List Char) :
    quotedText taken (t ++ '"' :: s) = .ok (String.ofList (taken.reverse ++ cs), s) := by
  induction h generalizing taken with
  | nil => rw [List.nil_append, quotedText, List.append_nil]
  | cons hc _ ih => rw [List.append_assoc, quotedText_spelling hc, ih, List.reverse_cons, List.append_assoc,
      List.singleton_append]

theorem quotedText_inQuotes {name : String} {t : List Char} (h : InQuotes name ('"' :: t)) (s : List Char) :
    quotedText [] (t ++ s) = .ok (name, s) := by
  cases h with
  | mk ht => rw [List.append_assoc, List.singleton_append, quotedText_spelled ht, List.reverse_nil, List.nil_append,
      String.ofList_toList]

theorem InQuotes.exists_cons {name : String} {q : List Char} (h : InQuotes name q) : ∃ t, q = '"' :: t := by
  cases h with
  | mk _ => exact ⟨_, rfl⟩

/-! ## Every text has a spelling -/

theorem hexValue?_digitChar {n : Nat} (h : n < 16) : hexValue? n.digitChar = some n := by
  decide +revert

theorem fourDigits_of_lt {n : Nat} (h : n < 0x20) : FourDigits n ['0', '0', (n / 16).digitChar, (n % 16).digitChar] := by
  have hzero : hexValue? '0' = some 0 := rfl
  have hhigh := hexValue?_digitChar (n := n / 16) (by omega)
  have hlow := hexValue?_digitChar (n := n % 16) (by omega)
  have hcode : ((0 * 16 + 0) * 16 + n / 16) * 16 + n % 16 = n := by omega
  have hdigits := FourDigits.mk hzero hzero hhigh hlow
  rwa [hcode] at hdigits

theorem exists_spelling (c : Char) : ∃ t, Spelling c t := by
  by_cases hcode : c.toNat < 0x20
  · exact ⟨_, .coded (fourDigits_of_lt hcode)⟩
  · by_cases hquote : c = '"'
    · exact ⟨['\\', '"'], .short (by simp [shortEscapes, hquote])⟩
    · by_cases hslash : c = '\\'
      · exact ⟨['\\', '\\'], .short (by simp [shortEscapes, hslash])⟩
      · exact ⟨[c], .plain (by omega) hquote hslash⟩

/-- Whether a character may stand for itself: it is no quotation mark, no backslash and no control code. -/
def isPlain (c : Char) : Bool := 0x20 ≤ c.toNat && c != '"' && c != '\\'

theorem spelled_self {cs : List Char} (h : cs.all isPlain = true) : Spelled cs cs := by
  induction cs with
  | nil => exact .nil
  | cons c cs ih =>
    rw [List.all_cons, Bool.and_eq_true] at h
    obtain ⟨hplain, hrest⟩ := h
    simp only [isPlain, Bool.and_eq_true, decide_eq_true_eq, bne_iff_ne] at hplain
    exact .cons (.plain hplain.1.1 hplain.1.2 hplain.2) (ih hrest)

theorem exists_spelled (cs : List Char) : ∃ t, Spelled cs t := by
  induction cs with
  | nil => exact ⟨[], .nil⟩
  | cons c cs ih =>
    obtain ⟨t, ht⟩ := exists_spelling c
    obtain ⟨ts, hts⟩ := ih
    exact ⟨t ++ ts, .cons ht hts⟩

theorem exists_inQuotes (name : String) : ∃ q, InQuotes name q := by
  obtain ⟨t, ht⟩ := exists_spelled name.toList
  exact ⟨_, .mk ht⟩

end GridTick
