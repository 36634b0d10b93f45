import GridTick.Settings.Refusal

/-!
# GridTick.Settings.Scalar — the scalars of a configuration text

The text is read from left to right and never twice.  Each reader takes the characters ahead and gives back a value
with the characters that follow it, or the first problem that it meets.

* `skipBlank`: blanks between tokens.
* `word`: a fixed word.
* `quotedText`: a text between quotation marks, past the first of them.
* `numeral`: a number, kept as a whole number when it fits a 64-bit word and as a double otherwise.
* `boolean`, `natural`: a value of one kind; any other scalar is refused by its kind, and of a sequence or a map only
  the first character is read.
-/

namespace GridTick

/-- A value and the characters after it, or a problem. -/
abbrev Read (α : Type) := Except Problem (α × List Char)

/-- Whether a character may stand between tokens. -/
def isBlank (c : Char) : Bool := c == ' ' || c == '\n' || c == '\t' || c == '\r'

def skipBlank (s : List Char) : List Char := s.dropWhile isBlank

/-- The rest of a word whose first character has been read. -/
def word : List Char → List Char → Except Problem (List Char)
  | [], s => .ok s
  | _ :: _, [] => .error .truncated
  | w :: ws, c :: s => if w = c then word ws s else .error .malformed

/-! ## Texts -/

/-- Value of a hexadecimal digit. -/
def hexValue? (c : Char) : Option Nat :=
  if '0' ≤ c ∧ c ≤ '9' then some (c.toNat - '0'.toNat)
  else if 'a' ≤ c ∧ c ≤ 'f' then some (c.toNat - 'a'.toNat + 10)
  else if 'A' ≤ c ∧ c ≤ 'F' then some (c.toNat - 'A'.toNat + 10)
  else none

def byteCount (s : List Char) : Nat := s.foldl (fun n c => n + c.utf8Size) 0

/-- Four hexadecimal digits.  With fewer than four bytes ahead the text has ended too early. -/
def fourHex (s : List Char) : Read Nat :=
  if byteCount (s.take 4) < 4 then .error .truncated
  else
    match s with
    | a :: b :: c :: d :: rest =>
      match hexValue? a, hexValue? b, hexValue? c, hexValue? d with
      | some a, some b, some c, some d => .ok (((a * 16 + b) * 16 + c) * 16 + d, rest)
      | _, _, _, _ => .error .malformed
    | _ => .error .malformed

/-- The second half of a character beyond the sixteen-bit range, after a first half `high`. -/
def secondHalf (high : Nat) : List Char → Read Char
  | [] => .error .truncated
  | '\\' :: [] => .error .truncated
  | '\\' :: 'u' :: rest =>
    match fourHex rest with
    | .error problem => .error problem
    | .ok (low, rest) =>
      if 0xDC00 ≤ low ∧ low ≤ 0xDFFF then
        .ok (Char.ofNat ((high - 0xD800) * 0x400 + (low - 0xDC00) + 0x10000), rest)
      else .error .malformed
  | _ => .error .malformed

/-- A character given by its code, past the `u`. -/
def codedChar (s : List Char) : Read Char :=
  match fourHex s with
  | .error problem => .error problem
  | .ok (n, rest) =>
    if 0xDC00 ≤ n ∧ n ≤ 0xDFFF then .error .malformed
    else if 0xD800 ≤ n ∧ n ≤ 0xDBFF then secondHalf n rest
    else .ok (Char.ofNat n, rest)

/-- The character after a backslash. -/
def escapedChar : List Char → Read Char
  | [] => .error .truncated
  | '"' :: s => .ok ('"', s)
  | '\\' :: s => .ok ('\\', s)
  | '/' :: s => .ok ('/', s)
  | 'b' :: s => .ok ('\x08', s)
  | 'f' :: s => .ok ('\x0c', s)
  | 'n' :: s => .ok ('\n', s)
  | 'r' :: s => .ok ('\r', s)
  | 't' :: s => .ok ('\t', s)
  | 'u' :: s => codedChar s
  | _ => .error .malformed

theorem fourHex_length {s : List Char} {n : Nat} {rest : List Char} (h : fourHex s = .ok (n, rest)) :
    rest.length < s.length := by
  unfold fourHex at h
  split at h
  · cases h
  · split at h
    · split at h
      · cases h
        simp only [List.length_cons]
        omega
      · cases h
    · cases h

theorem secondHalf_length {high : Nat} {s : List Char} {c : Char} {rest : List Char}
    (h : secondHalf high s = .ok (c, rest)) : rest.length < s.length := by
  unfold secondHalf at h
  split at h
  · cases h
  · cases h
  · split at h
    · cases h
    · rename_i heq
      have hlt := fourHex_length heq
      split at h
      · simp only [Except.ok.injEq, Prod.mk.injEq] at h
        rw [← h.2]
        simp only [List.length_cons]
        omega
      · cases h
  · cases h

theorem codedChar_length {s : List Char} {c : Char} {rest : List Char} (h : codedChar s = .ok (c, rest)) :
    rest.length < s.length := by
  unfold codedChar at h
  split at h
  · cases h
  · rename_i heq
    have := fourHex_length heq
    split at h
    · cases h
    · split at h
      · have := secondHalf_length h
        omega
      · cases h
        omega

/-- An escape takes at least one character. -/
theorem escapedChar_length {s : List Char} {c : Char} {rest : List Char} (h : escapedChar s = .ok (c, rest)) :
    rest.length < s.length := by
  unfold escapedChar at h
  split at h
  case h_10 =>
    have := codedChar_length h
    simp only [List.length_cons]
    omega
  all_goals cases h
  all_goals simp

/-- A text up to its closing quotation mark; `taken` holds what was read, latest first. -/
def quotedText (taken : List Char) (s : List Char) : Read String :=
  match s with
  | [] => .error .truncated
  | '"' :: rest => .ok (String.ofList taken.reverse, rest)
  | '\\' :: rest =>
    match _h : escapedChar rest with
    | .error problem => .error problem
    | .ok (c, rest') => quotedText (c :: taken) rest'
  | c :: rest => if c.toNat < 0x20 then .error .malformed else quotedText (c :: taken) rest
termination_by s.length
decreasing_by
  · have := escapedChar_length _h
    simp only [List.length_cons]
    omega
  · simp

/-! ## Numbers -/

/-- A number as it is kept. -/
inductive Numeral where
  | whole (n : Nat)
  | negative (n : Nat)
  | floating (v : Binary64)
deriving DecidableEq, Repr

/-- Value of a decimal digit. -/
def digitValue (c : Char) : Nat := c.toNat - '0'.toNat

/-- Take in digits as long as the number stays within a limit; the digits left over come back. -/
def accumulate (limit : Nat) (n : Nat) : List Char → Nat × List Char
  | [] => (n, [])
  | d :: ds =>
    if limit < n * 10 + digitValue d then (n, d :: ds)
    else accumulate limit (n * 10 + digitValue d) ds

/-- Largest significand. -/
def significandLimit : Nat := twoTo 64 - 1

/-- Largest exponent. -/
def exponentLimit : Nat := twoTo 31 - 1

/-- Least exponent. -/
def leastExponent : Int := -2147483648

/-- Divide a double by `10^n`, in parts of at most 308 places; zero stays zero. -/
def divideByTens (v : Binary64) (n : Nat) : Binary64 :=
  if 308 < n then
    match v with
    | .finite _ 0 _ => v
    | v => divideByTens (v.scaleDown (Binary64.powerOfTen 308)) (n - 308)
  else v.scaleDown (Binary64.powerOfTen n)
termination_by n
decreasing_by omega

/-- The double for a sign, a significand and a power of ten; too large a one is a problem. -/
def scaledDouble (negative : Bool) (significand : Nat) (exponent : Int) : Except Problem Binary64 :=
  let v := Binary64.ofRatio negative ⟨significand, 1⟩
  if exponent < 0 then .ok (divideByTens v exponent.natAbs)
  else if 308 < exponent then
    if significand = 0 then .ok v else .error .malformed
  else
    match v.scaleUp (Binary64.powerOfTen exponent.toNat) with
    | .infinite _ => .error .malformed
    | w => .ok w

/-- The digits ahead and what follows them. -/
def digitsAhead (s : List Char) : List Char × List Char := s.span Char.isDigit

/-- Refuse an absent digit: too early an end, or a wrong character. -/
def digitMissing : List Char → Problem
  | [] => .truncated
  | _ :: _ => .malformed

/-- The exponent of a number, past the `e`, for the significand and power of ten read before it. -/
def exponentPart (negative : Bool) (significand : Nat) (start : Int) (s : List Char) : Read Binary64 :=
  let (down, s) := match s with
    | '+' :: s => (false, s)
    | '-' :: s => (true, s)
    | s => (false, s)
  match digitsAhead s with
  | ([], rest) => .error (digitMissing rest)
  | (digits, rest) =>
    match accumulate exponentLimit 0 digits with
    | (n, []) =>
      let exponent := if down then start - n else start + n
      (scaledDouble negative significand (max leastExponent (min exponentLimit exponent))).map (·, rest)
    | (_, _ :: _) =>
      if significand ≠ 0 ∧ !down then .error .malformed
      else .ok (.finite negative 0 Binary64.minExponent, rest)

/-- The exponent if there is one, else the number as it stands. -/
def maybeExponent (negative : Bool) (significand : Nat) (power : Int) (s : List Char) : Read Binary64 :=
  match s with
  | 'e' :: rest => exponentPart negative significand power rest
  | 'E' :: rest => exponentPart negative significand power rest
  | s => (scaledDouble negative significand power).map (·, s)

/-- The digits after the point.  Digits that no longer fit the significand are passed over. -/
def fractionPart (negative : Bool) (significand : Nat) (power : Int) (s : List Char) : Read Binary64 :=
  match digitsAhead s with
  | ([], rest) => .error (digitMissing rest)
  | (digits, rest) =>
    let (significand, unused) := accumulate significandLimit significand digits
    maybeExponent negative significand (power - (digits.length - unused.length : Nat)) rest

/-- A number without point and exponent that fits a word. -/
def wholeNumeral (negative : Bool) (n : Nat) : Numeral :=
  if !negative then .whole n
  else if n = 0 ∨ twoTo 63 < n then .floating (Binary64.ofRatio true ⟨n, 1⟩)
  else .negative n

/-- What follows the integer part: a fraction, an exponent, or nothing. -/
def afterInteger (negative : Bool) (significand : Nat) (unused : List Char) (s : List Char) : Read Numeral :=
  match s with
  | '.' :: rest => (fractionPart negative significand unused.length rest).map fun (v, s) => (.floating v, s)
  | 'e' :: rest => (exponentPart negative significand unused.length rest).map fun (v, s) => (.floating v, s)
  | 'E' :: rest => (exponentPart negative significand unused.length rest).map fun (v, s) => (.floating v, s)
  | s =>
    match unused with
    | [] => .ok (wholeNumeral negative significand, s)
    | unused => (scaledDouble negative significand unused.length).map fun v => (.floating v, s)

/-- A number past its sign.  No digit may follow a leading zero. -/
def numeral (negative : Bool) (s : List Char) : Read Numeral :=
  match digitsAhead s with
  | ([], rest) => .error (digitMissing rest)
  | ('0' :: _ :: _, _) => .error .malformed
  | (digits, rest) =>
    let (significand, unused) := accumulate significandLimit 0 digits
    afterInteger negative significand unused rest

/-- A number as a value that does not fit. -/
def Numeral.found : Numeral → Found
  | .whole n => .integer n
  | .negative n => .integer (-n)
  | .floating v => .floating v

/-! ## Values of one kind -/

/-- Refuse whatever value is ahead for being of the wrong kind; a value that is malformed itself is reported first. -/
def wrongKind (expected : Expected) (s : List Char) : Problem :=
  let refuse (found : Found) : Problem := .refused (.wrongType found expected)
  let afterNumber (r : Read Numeral) : Problem :=
    match r with
    | .ok (n, _) => refuse n.found
    | .error problem => problem
  match s with
  | [] => .truncated
  | 'n' :: rest => match word "ull".toList rest with
    | .ok _ => refuse .null
    | .error problem => problem
  | 't' :: rest => match word "rue".toList rest with
    | .ok _ => refuse (.boolean true)
    | .error problem => problem
  | 'f' :: rest => match word "alse".toList rest with
    | .ok _ => refuse (.boolean false)
    | .error problem => problem
  | '"' :: rest => match quotedText [] rest with
    | .ok (t, _) => refuse (.text t)
    | .error problem => problem
  | '[' :: _ => refuse .sequence
  | '\x7b' :: _ => refuse .map
  | '-' :: rest => afterNumber (numeral true rest)
  | c :: rest => if c.isDigit then afterNumber (numeral false (c :: rest)) else .malformed

def boolean (s : List Char) : Read Bool :=
  match skipBlank s with
  | 't' :: rest => (word "rue".toList rest).map (true, ·)
  | 'f' :: rest => (word "alse".toList rest).map (false, ·)
  | s => .error (wrongKind .boolean s)

def natural (expected : Expected) (s : List Char) : Read UInt64 :=
  let accept (r : Read Numeral) : Read UInt64 :=
    match r with
    | .error problem => .error problem
    | .ok (.whole n, rest) => .ok (UInt64.ofNat n, rest)
    | .ok (.negative n, _) => .error (.refused (.wrongValue (.integer (-n)) expected))
    | .ok (.floating v, _) => .error (.refused (.wrongType (.floating v) expected))
  match skipBlank s with
  | '-' :: rest => accept (numeral true rest)
  | c :: rest => if c.isDigit then accept (numeral false (c :: rest)) else .error (wrongKind expected (c :: rest))
  | [] => .error .truncated

end GridTick
