import GridTick.Number.Shortest

/-!
# GridTick.Number.Layout — how doubles are written

A `Layout` fixes the choices that a writer of doubles has: for which exponents the digits are written out in
positional notation, whether an exponent has a plus sign otherwise, and which of two equally near decimals is taken.
The digits are always the shortest.
-/

namespace GridTick

/-- Choices of a writer of doubles. -/
structure Layout where
  /-- Least exponent of the leading digit that is written positionally. -/
  positionalFrom : Int
  /-- Greatest such exponent. -/
  positionalTo : Int
  plus : Bool
  /-- Which of two equally near decimals is taken. -/
  tie : Tie
deriving DecidableEq, Repr

namespace Layout

/-- Digits with the point after the first `before` of them; there is always a digit on both sides. -/
def pointed (digits : List Char) (before : Int) : List Char :=
  if before ≤ 0 then '0' :: '.' :: (List.replicate (-before).toNat '0' ++ digits)
  else
    let whole := digits.take before.toNat
    let padded := whole ++ List.replicate (before.toNat - whole.length) '0'
    match digits.drop before.toNat with
    | [] => padded ++ ['.', '0']
    | fraction => padded ++ '.' :: fraction

/-- An exponent, with a plus sign if asked for. -/
def exponent (l : Layout) (e : Int) : List Char :=
  let digits := Nat.toDigits 10 e.natAbs
  if e < 0 then '-' :: digits else if l.plus then '+' :: digits else digits

/-- Digits in scientific notation: one before the point, none after it if there is only one. -/
def scientific (l : Layout) (digits : List Char) (lead : Int) : List Char :=
  let mantissa := match digits with
    | first :: second :: rest => first :: '.' :: second :: rest
    | short => short
  mantissa ++ 'e' :: l.exponent lead

/-- A positive decimal. -/
def writeDecimal (l : Layout) (d : Decimal) : List Char :=
  let digits := Nat.toDigits 10 d.digits
  let lead := d.exponent + digits.length - 1
  if l.positionalFrom ≤ lead ∧ lead ≤ l.positionalTo then pointed digits (lead + 1)
  else l.scientific digits lead

/-- A double. -/
def write (l : Layout) (v : Binary64) : String :=
  match v with
  | .notANumber => "NaN"
  | .infinite negative => if negative then "-inf" else "inf"
  | .finite negative m q =>
    let digits := if m = 0 then ['0', '.', '0'] else l.writeDecimal (Decimal.shortest l.tie m q)
    String.ofList (if negative then '-' :: digits else digits)

end Layout

end GridTick
