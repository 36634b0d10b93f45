import GridTick.Number.Power

/-!
# GridTick.Text.Duration — spans of time and how they are written

A span is a whole number of nanoseconds.  It is written in the largest of the units second, millisecond, microsecond
and nanosecond that it reaches, as a decimal without trailing zeros.

* `Duration.ofParts`: seconds and nanoseconds.
* `Duration.describe`: the written form.
* `decimal`: a whole number of parts of a unit written with a point.
-/

namespace GridTick

/-- A span of time. -/
structure Duration where
  nanoseconds : Nat
deriving DecidableEq, Inhabited, Repr

/-- Decimal digits of `n`, padded with zeros on the left to a width. -/
def paddedDigits (width n : Nat) : List Char :=
  let digits := Nat.toDigits 10 n
  List.replicate (width - digits.length) '0' ++ digits

/-- A digit string without the zeros at its end. -/
def dropTrailingZeros (digits : List Char) : List Char :=
  (digits.reverse.dropWhile (· == '0')).reverse

/-- Decimal notation of `n` parts, `10^places` of them to the whole. -/
def decimal (n places : Nat) : String :=
  let whole := toString (n / tenTo places)
  match dropTrailingZeros (paddedDigits places (n % tenTo places)) with
  | [] => whole
  | fraction => whole ++ "." ++ String.ofList fraction

namespace Duration

/-- Nanoseconds in a second. -/
def perSecond : Nat := tenTo 9

/-- A span of so many seconds and nanoseconds. -/
def ofParts (seconds nanoseconds : Nat) : Duration := ⟨seconds * perSecond + nanoseconds⟩

def ofSeconds (seconds : Nat) : Duration := ofParts seconds 0

def describe (d : Duration) : String :=
  if tenTo 9 ≤ d.nanoseconds then decimal d.nanoseconds 9 ++ "s"
  else if tenTo 6 ≤ d.nanoseconds then decimal d.nanoseconds 6 ++ "ms"
  else if tenTo 3 ≤ d.nanoseconds then decimal d.nanoseconds 3 ++ "µs"
  else toString d.nanoseconds ++ "ns"

end Duration

end GridTick
