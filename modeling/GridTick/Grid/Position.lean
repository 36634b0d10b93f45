import GridTick.Grid.Cell
import GridTick.Number.Binary64

/-!
# GridTick.Grid.Position — points of the plane and the cells they lie in

A point is given in blocks, by two doubles.  Its cell is found by dividing by sixteen, rounding down and holding the
result inside the signed 32-bit range; a coordinate that is not a number counts as zero.  The division rounds like
any division of doubles, so a negative coordinate too small for its sixteenth to be told from zero lies in cell zero.

* `Cell.coordinateOf`: one coordinate, from the bits of a double.
* `Position.cell`: the cell of a point.
-/

namespace GridTick

/-- A point in block coordinates. -/
structure Position where
  x : Float
  z : Float
deriving Inhabited

def minCoordinate : Int := -2147483648

def maxCoordinate : Int := 2147483647

/-- Hold a whole number inside the signed 32-bit range. -/
def clampCoordinate (n : Int) : Int32 := Int32.ofInt (max minCoordinate (min maxCoordinate n))

namespace Cell

/-- Coordinate of the cell that holds a block coordinate. -/
def coordinateOf (bits : UInt64) : Int32 :=
  match Binary64.ofBits bits with
  | .notANumber => 0
  | .infinite true => clampCoordinate minCoordinate
  | .infinite false => clampCoordinate maxCoordinate
  | .finite negative m e =>
    let (m, e) := Binary64.shiftDown m e blockShift
    clampCoordinate (Binary64.floorOf negative m e)

/-- Cell of a point given by the bits of its two coordinates. -/
def ofWorldBits (x z : UInt64) : Cell := ⟨coordinateOf x, coordinateOf z⟩

end Cell

namespace Position

def cell (p : Position) : Cell := Cell.ofWorldBits p.x.toBits p.z.toBits

def shift (p : Position) (dx dz : Float) : Position := ⟨p.x + dx, p.z + dz⟩

end Position

end GridTick
