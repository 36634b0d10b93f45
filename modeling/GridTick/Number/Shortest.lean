import GridTick.Number.Nearest

/-!
# GridTick.Number.Shortest — the shortest decimal of a double

Every double is the nearest one to all numbers of an interval round it.  Its shortest decimal is the one with the
fewest digits that lies in that interval; of several with that many digits, the nearest to the double.  Which of two
equally near ones is taken is a choice of the writer.  An end of the interval belongs to it exactly when the
significand is even.

* `Decimal`: digits times a power of ten.
* `Tie`: the choice between two equally near decimals.
* `Decimal.shortest`: the search, one digit more at a time, on the two grid points next to the value.
-/

namespace GridTick

/-- The number `digits · 10^exponent`. -/
structure Decimal where
  digits : Nat
  exponent : Int
deriving DecidableEq, Inhabited, Repr

/-- Which of two equally near decimals is taken. -/
inductive Tie where
  /-- The one whose last digit is even. -/
  | even
  /-- The one farther from zero. -/
  | away
deriving DecidableEq, Repr

/-- Whether a tie goes to the smaller one, whose digits are `down`. -/
def Tie.takesDown (tie : Tie) (down : Nat) : Bool :=
  match tie with
  | .even => down % 2 == 0
  | .away => false

/-- The doubles' neighbourhood of a value, in quarters of its last place: the value and the two ends. -/
structure Neighbourhood where
  lower : Nat
  value : Nat
  upper : Nat
  closed : Bool
deriving Repr

namespace Neighbourhood

/-- Neighbourhood of `m · 2^q`.  Below a power of two the doubles lie twice as close. -/
def ofSignificand (m : Nat) (q : Int) : Neighbourhood :=
  let below := if m = twoTo Binary64.fractionBits ∧ Binary64.minExponent < q then 1 else 2
  ⟨4 * m - below, 4 * m, 4 * m + 2, m % 2 = 0⟩

/-- Whether `n / d` quarters lie in the neighbourhood. -/
def holds (b : Neighbourhood) (n d : Nat) : Bool :=
  if b.closed then b.lower * d ≤ n && n ≤ b.upper * d
  else b.lower * d < n && n < b.upper * d

end Neighbourhood

namespace Decimal

/-- The better of the two points of the grid of step `10^e` next to the value, if one lies in the neighbourhood;
`scale` is the size of a quarter. -/
def onGrid? (tie : Tie) (b : Neighbourhood) (scale : Ratio) (e : Int) : Option Nat :=
  let unit := scale.inUnits e
  let whole := b.value * unit.numerator
  let down := whole / unit.denominator
  let inside (d : Nat) : Bool := b.holds (d * unit.denominator) unit.numerator
  let middle := (2 * down + 1) * unit.denominator
  let nearDown := 2 * whole < middle || (2 * whole == middle && tie.takesDown down)
  if inside down && (nearDown || !inside (down + 1)) then some down
  else if inside (down + 1) then some (down + 1)
  else none

/-- Search the grids from `count` digits on, at most `more` of them. -/
def search (tie : Tie) (b : Neighbourhood) (scale : Ratio) (lead : Int) (count : Nat) : Nat → Decimal
  | 0 => ⟨b.value * scale.numerator / scale.denominator, 0⟩
  | more + 1 =>
    let e := lead - count + 1
    match onGrid? tie b scale e with
    | some d => ⟨d, e⟩
    | none => search tie b scale lead (count + 1) more

/-- Drop a factor of ten where the digits came out one too long. -/
def normal (d : Decimal) : Decimal :=
  if d.digits ≠ 0 ∧ d.digits % 10 = 0 then ⟨d.digits / 10, d.exponent + 1⟩ else d

/-- Shortest decimal of the double `m · 2^q`; seventeen digits always suffice. -/
def shortest (tie : Tie) (m : Nat) (q : Int) : Decimal :=
  let scale : Ratio := ⟨twoTo (q - 2).toNat, twoTo (2 - q).toNat⟩
  let value : Ratio := ⟨4 * m * scale.numerator, scale.denominator⟩
  (search tie (Neighbourhood.ofSignificand m q) scale value.leadingExponent 1 17).normal

end Decimal

end GridTick
