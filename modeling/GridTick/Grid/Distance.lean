import GridTick.Grid.Cell
import GridTick.Number.Power

/-!
# GridTick.Grid.Distance — how far apart two cells are

Two measures, both of the king-move kind (the larger of the two coordinate gaps):

* `Cell.distance`: on the plane, so cells on opposite edges are far apart.
* `Cell.ringDistance`: on the closed grid, each gap measured the short way round a circle of `2^32` steps.
-/

namespace GridTick

/-- Number of cells along one side of the grid. -/
def gridSide : Nat := twoTo 32

/-- Gap between two coordinates on the line. -/
def lineGap (a b : Int32) : Nat := (a.toInt - b.toInt).natAbs

/-- Gap between two coordinates on the circle of `gridSide` steps. -/
def ringGap (a b : Int32) : Nat :=
  min (lineGap a b) (gridSide - lineGap a b)

namespace Cell

def distance (a b : Cell) : Nat := max (lineGap a.x b.x) (lineGap a.z b.z)

def ringDistance (a b : Cell) : Nat := max (ringGap a.x b.x) (ringGap a.z b.z)

end Cell

end GridTick
