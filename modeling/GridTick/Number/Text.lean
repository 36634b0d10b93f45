import GridTick.Number.Nearest

/-!
# GridTick.Number.Text — numbers given as text

Whole numbers are decimal digits, with a plus sign or none in front.  Other numbers may have a sign, a point and an
exponent, and are rounded to the nearest single; infinity and not-a-number are given by their names in any case.
Nothing else may stand in the text, blanks included.

* `readWhole`: a whole number up to a limit.
* `readSingle`: a single, as the double of the same value.
-/

namespace GridTick

/-- Value of a digit string. -/
def digitsValue (digits : List Char) : Nat := digits.foldl (fun n c => n * 10 + (c.toNat - '0'.toNat)) 0

/-- A whole number of at most `limit`. -/
def readWhole (limit : Nat) (text : String) : Option Nat :=
  let digits := match text.toList with
    | '+' :: rest => rest
    | all => all
  if digits.isEmpty || !digits.all Char.isDigit then none
  else
    let n := digitsValue digits
    if n ≤ limit then some n else none

/-- Split off a sign; `true` for minus. -/
def splitSign : List Char → Bool × List Char
  | '-' :: rest => (true, rest)
  | '+' :: rest => (false, rest)
  | all => (false, all)

/-- The exponent at the end of a number, zero when there is none. -/
def readExponent : List Char → Option Int
  | [] => some 0
  | c :: rest =>
    if c = 'e' ∨ c = 'E' then
      let (negative, digits) := splitSign rest
      if digits.isEmpty || !digits.all Char.isDigit then none
      else
        let n : Int := digitsValue digits
        some (if negative then -n else n)
    else none

/-- Digits and exponent of a decimal number without sign. -/
def readDecimal (s : List Char) : Option (Nat × Int) :=
  let (whole, rest) := s.span Char.isDigit
  let (fraction, rest) := match rest with
    | '.' :: rest => rest.span Char.isDigit
    | rest => ([], rest)
  if whole.isEmpty && fraction.isEmpty then none
  else (readExponent rest).map fun e => (digitsValue (whole ++ fraction), e - fraction.length)

/-- Infinity or not-a-number by name. -/
def readNamed (negative : Bool) (s : List Char) : Option Binary64 :=
  let name := String.ofList (s.map Char.toLower)
  if name = "nan" then some .notANumber
  else if name = "inf" ∨ name = "infinity" then some (.infinite negative)
  else none

/-- Decimal exponent beyond which every number is too large for a single, or too small to differ from zero. -/
def singleReach : Int := 60

/-- The single nearest to `digits · 10^e`, as a double. -/
def singleOfDecimal (negative : Bool) (digits : Nat) (e : Int) : Binary64 :=
  let lead := digitCount digits + e
  if digits = 0 ∨ lead < -singleReach then .finite negative 0 Binary64.minExponent
  else if singleReach < lead then .infinite negative
  else
    match FloatFormat.single.nearest ⟨digits * tenTo e.toNat, tenTo (-e).toNat⟩ with
    | none => .infinite negative
    | some (m, q) => Binary64.ofRatio negative ⟨m * twoTo q.toNat, twoTo (-q).toNat⟩

def readSingle (text : String) : Option Binary64 :=
  let (negative, s) := splitSign text.toList
  match readDecimal s with
  | some (digits, e) => some (singleOfDecimal negative digits e)
  | none => readNamed negative s

end GridTick
