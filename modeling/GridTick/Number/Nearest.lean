import GridTick.Number.Binary64

/-!
# GridTick.Number.Nearest — rounding fractions to floating-point numbers

A floating-point format holds whole significands below a power of two, times powers of two between two bounds.  A
fraction is rounded to the nearest number of a format, a tie going to the even significand; one too large for the
format has none.

* `Ratio`: a fraction, not negative.
* `FloatFormat.nearest`: the rounding.
* `Binary64.scaleUp`, `Binary64.scaleDown`: products and quotients of doubles, by the same rounding.
-/

namespace GridTick

/-- Number of decimal digits of a whole number. -/
def digitCount (n : Nat) : Nat := (Nat.toDigits 10 n).length

structure Ratio where
  numerator : Nat
  denominator : Nat
deriving Repr

namespace Ratio

/-- Exponent of the leading decimal digit. -/
def leadingExponent (r : Ratio) : Int :=
  let k : Int := digitCount r.numerator - digitCount r.denominator
  let reached := r.denominator * tenTo k.toNat ≤ r.numerator * tenTo (-k).toNat
  if reached then k else k - 1

/-- The ratio in units of `2^e`. -/
def halved (r : Ratio) (e : Int) : Ratio := ⟨r.numerator * twoTo (-e).toNat, r.denominator * twoTo e.toNat⟩

/-- The ratio in units of `10^e`. -/
def inUnits (r : Ratio) (e : Int) : Ratio := ⟨r.numerator * tenTo (-e).toNat, r.denominator * tenTo e.toNat⟩

end Ratio

/-- A floating-point format: bits of the significand, and least and greatest exponent of its last place. -/
structure FloatFormat where
  precision : Nat
  minExponent : Int
  maxExponent : Int
deriving DecidableEq, Repr

namespace FloatFormat

def double : FloatFormat := ⟨53, -1074, 971⟩

def single : FloatFormat := ⟨24, -149, 104⟩

/-- Exponent of the last place for a fraction, before the format's least one is heeded. -/
def placeOf (f : FloatFormat) (r : Ratio) : Int :=
  let e : Int := r.numerator.log2 - r.denominator.log2 - f.precision
  let scaled := r.halved e
  if scaled.numerator < scaled.denominator * twoTo f.precision then e else e + 1

/-- Significand and exponent of the number of the format nearest to a fraction; `none` when it is too large. -/
def nearest (f : FloatFormat) (r : Ratio) : Option (Nat × Int) :=
  if r.numerator = 0 then some (0, f.minExponent)
  else
    let e := max (f.placeOf r) f.minExponent
    let scaled := r.halved e
    let m := divideHalfEven scaled.numerator scaled.denominator
    let (m, e) := if m = twoTo f.precision then (twoTo (f.precision - 1), e + 1) else (m, e)
    if e ≤ f.maxExponent then some (m, e) else none

end FloatFormat

namespace Binary64

/-- The double nearest to a fraction with a sign; an infinity when it is too large. -/
def ofRatio (negative : Bool) (r : Ratio) : Binary64 :=
  match FloatFormat.double.nearest r with
  | some (m, e) => .finite negative m e
  | none => .infinite negative

/-- Product of two numbers `m · 2^e`, as a fraction. -/
def productRatio (m₁ : Nat) (e₁ : Int) (m₂ : Nat) (e₂ : Int) : Ratio :=
  ⟨m₁ * m₂ * twoTo (e₁ + e₂).toNat, twoTo (-(e₁ + e₂)).toNat⟩

/-- Quotient of two numbers `m · 2^e`, as a fraction. -/
def quotientRatio (m₁ : Nat) (e₁ : Int) (m₂ : Nat) (e₂ : Int) : Ratio :=
  ⟨m₁ * twoTo (e₁ - e₂).toNat, m₂ * twoTo (e₂ - e₁).toNat⟩

/-- The double nearest to a power of ten. -/
def powerOfTen (n : Nat) : Binary64 := ofRatio false ⟨tenTo n, 1⟩

/-- Product of finite doubles; the first keeps its sign.  Anything else is returned as it is. -/
def scaleUp (a b : Binary64) : Binary64 :=
  match a, b with
  | .finite negative m₁ e₁, .finite _ m₂ e₂ => ofRatio negative (productRatio m₁ e₁ m₂ e₂)
  | a, _ => a

/-- Quotient of finite doubles; the first keeps its sign.  Anything else is returned as it is. -/
def scaleDown (a b : Binary64) : Binary64 :=
  match a, b with
  | .finite negative m₁ e₁, .finite _ m₂ e₂ => ofRatio negative (quotientRatio m₁ e₁ m₂ e₂)
  | a, _ => a

end Binary64

end GridTick
