import GridTick.Number.Power

/-!
# GridTick.Number.Binary64 — what the bits of a double mean

A double is taken apart into a sign, a whole significand and a power of two, so that rules about doubles can be
stated on integers.

* `Binary64.ofBits`: the value behind 64 bits.
* `divideHalfEven`: a quotient rounded to the nearest whole number, a tie going to the even one.
* `Binary64.floorOf`: a value rounded down.
* `Binary64.shiftDown`: a value divided by a power of two, rounded as the format rounds.
-/

namespace GridTick

/-- A double: not a number, an infinity, or a signed whole number times a power of two. -/
inductive Binary64 where
  | notANumber
  | infinite (negative : Bool)
  | finite (negative : Bool) (significand : Nat) (exponent : Int)
deriving DecidableEq, Inhabited, Repr

/-- Quotient `n / d` rounded to the nearest whole number, a tie going to the even one. -/
def divideHalfEven (n d : Nat) : Nat :=
  let quotient := n / d
  let rest := n % d
  if 2 * rest < d then quotient
  else if d < 2 * rest then quotient + 1
  else quotient + quotient % 2

namespace Binary64

/-- Number of stored bits of the significand. -/
def fractionBits : Nat := 52

/-- Exponent of the last place of the smallest doubles. -/
def minExponent : Int := -1074

/-- Decode 64 bits: one for the sign, eleven for the exponent, the rest for the significand. -/
def ofBits (bits : UInt64) : Binary64 :=
  let word : Nat := bits.toNat
  let negative : Bool := twoTo 63 ≤ word
  let field : Nat := word / twoTo fractionBits % twoTo 11
  let fraction : Nat := word % twoTo fractionBits
  if field = 2047 then
    if fraction = 0 then .infinite negative else .notANumber
  else if field = 0 then .finite negative fraction minExponent
  else .finite negative (fraction + twoTo fractionBits) ((field : Int) - 1075)

def ofFloat (v : Float) : Binary64 := ofBits v.toBits

/-- Largest whole number not above `±m · 2^e`. -/
def floorOf (negative : Bool) (m : Nat) (e : Int) : Int :=
  (if negative then -(m : Int) else m) * twoTo e.toNat / twoTo (-e).toNat

/-- A power of two below the value, rounded as the format rounds: exact unless the last place falls below the
smallest one, where the significand is rounded half to even. -/
def shiftDown (m : Nat) (e : Int) (s : Nat) : Nat × Int :=
  if minExponent ≤ e - s then (m, e - s)
  else (divideHalfEven m (twoTo (minExponent - (e - s)).toNat), minExponent)

end Binary64

end GridTick
