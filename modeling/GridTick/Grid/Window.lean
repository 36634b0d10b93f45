import GridTick.Grid.Key
import GridTick.Grid.Distance

/-!
# GridTick.Grid.Window — the square that an agent sees

A window is a centre and a radius.  Its cells are listed row by row; on the closed grid a row may run over the edge.
A radius beyond half the grid is cut down to `2^31 - 1` for listing, but the membership test `Window.covers` keeps
the full radius and measures on the plane.

* `Window.keys`: every key, in order.  `Window.keyAt` gives the one at a place, for windows too large to list.
* `Window.toSet`: the keys as a set.
* `areaOf`: the number of cells for a radius, in sums and products held at the largest 64-bit word.
-/

namespace GridTick

/-- Largest radius that is listed in full. -/
def maxReach : Nat := twoTo 31 - 1

/-- The largest 64-bit word. -/
def lastWord : Nat := twoTo 64 - 1

/-- A sum held at the largest word. -/
def heldSum (a b : Nat) : Nat := min (a + b) lastWord

/-- A product held at the largest word. -/
def heldProduct (a b : Nat) : Nat := min (a * b) lastWord

/-- Number of cells in a window of radius `r`: the side, squared, each step held at the largest word. -/
def areaOf (r : UInt32) : Nat :=
  let side := heldSum (heldProduct r.toNat 2) 1
  heldProduct side side

/-- The moves `-s, …, s` along one axis. -/
def steps (s : Nat) : List Int32 :=
  (List.range (2 * s + 1)).map fun i : Nat => Int32.ofInt ((i : Int) - s)

/-- A square of cells round a centre. -/
structure Window where
  center : Cell
  radius : UInt32
deriving DecidableEq, Inhabited, Repr

namespace Window

/-- Radius used for listing. -/
def reach (w : Window) : Nat := min w.radius.toNat maxReach

/-- Number of cells along one side of the listed square. -/
def side (w : Window) : Nat := 2 * w.reach + 1

/-- Every key of the window: the first axis outside, the second inside. -/
def keys (w : Window) : List Key :=
  (steps w.reach).flatMap fun dx => (steps w.reach).map fun dz => (w.center.offset dx dz).key

/-- The key at place `i` of the listing. -/
def keyAt (w : Window) (i : Nat) : Key :=
  (w.center.offset (Int32.ofInt ((i / w.side : Nat) - w.reach)) (Int32.ofInt ((i % w.side : Nat) - w.reach))).key

/-- The first `n` keys of the listing, without listing the rest. -/
def firstKeys (w : Window) (n : Nat) : List Key :=
  (List.range (min n (w.side * w.side))).map w.keyAt

def toSet (w : Window) : KeySet := Std.ExtTreeSet.ofList w.keys

/-- Whether a cell lies within the full radius of the centre on the plane. -/
def covers (w : Window) (c : Cell) : Bool := w.center.distance c ≤ w.radius.toNat

def area (w : Window) : Nat := areaOf w.radius

/-- A window always holds its centre. -/
def isEmpty (w : Window) : Bool := w.area == 0

def describe (w : Window) : String :=
  s!"ViewWindow \x7b center: {w.center.describe}, radius: {w.radius.toNat} \x7d"

end Window

end GridTick
