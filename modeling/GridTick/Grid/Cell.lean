/-!
# GridTick.Grid.Cell — chunk positions

A `Cell` is the position of one chunk: a pair of signed 32-bit coordinates.  The grid closes on itself in both
directions, so a move past `2^31 - 1` arrives at `-2^31`.

* `Cell.ofBlock`: the cell of a block, sixteen blocks to a side.
* `Cell.offset`: a wrapping move.
* `Cell.describe`: the one-line form used in reports.
-/

namespace GridTick

/-- Position of a chunk on the grid. -/
structure Cell where
  x : Int32
  z : Int32
deriving DecidableEq, Inhabited, Repr

namespace Cell

/-- The cell at the middle of the grid. -/
def origin : Cell := ⟨0, 0⟩

/-- Number of bits that a block coordinate loses when it becomes a cell coordinate. -/
def blockShift : Nat := 4

/-- Cell that holds a block: both coordinates divided by sixteen, rounded down. -/
def ofBlock (x z : Int32) : Cell :=
  ⟨x >>> Int32.ofNat blockShift, z >>> Int32.ofNat blockShift⟩

/-- The cell `dx` and `dz` steps away, round the edge of the grid if need be. -/
def offset (c : Cell) (dx dz : Int32) : Cell :=
  ⟨c.x + dx, c.z + dz⟩

/-- The cell reached by a list of moves made one after another. -/
def walk (c : Cell) (moves : List (Int32 × Int32)) : Cell :=
  moves.foldl (fun c m => c.offset m.1 m.2) c

/-- Reading order of cells: by `x`, then by `z`, both signed. -/
def readsBefore (a b : Cell) : Bool :=
  a.x < b.x || (a.x == b.x && a.z ≤ b.z)

def describe (c : Cell) : String :=
  s!"ChunkPos \x7b x: {c.x.toInt}, z: {c.z.toInt} \x7d"

@[simp] theorem offset_zero (c : Cell) : c.offset 0 0 = c := by
  cases c; simp [offset]

@[simp] theorem walk_nil (c : Cell) : c.walk [] = c := rfl

@[simp] theorem walk_cons (c : Cell) (m : Int32 × Int32) (ms : List (Int32 × Int32)) :
    c.walk (m :: ms) = (c.offset m.1 m.2).walk ms := rfl

end Cell

end GridTick
