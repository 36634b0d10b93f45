import GridTick.Tick.Contract

/-!
# GridTick.Tick.RegionTask — the work of one region

The task of a region looks up all its keys first.  It then ticks the chunks that it found, noting each key once its
chunk is done, and after the last chunk it offers the region's entities their ticks.

* `Program.resolve`: the look-ups.
* `Program.tickFound`: the chunk ticks.
* `Program.regionTask`: all of it.
-/

namespace GridTick

namespace Program

variable {C E : Type}

/-- Look up keys in order; `found` holds the chunks found so far, latest first. -/
def resolve : List Key → List (Key × C) → Program C E (List (Key × C))
  | [], found => return found.reverse
  | k :: rest, found => do
    let chunk ← call (.lookup k)
    match chunk with
    | some c => resolve rest ((k, c) :: found)
    | none => resolve rest found

/-- Tick chunks in order, noting the key under which each was looked up. -/
def tickFound (speed : UInt32) : List (Key × C) → Program C E Unit
  | [] => return ()
  | (k, c) :: rest => do
    call (.tickChunk c speed)
    note (.recorded k)
    tickFound speed rest

def regionTask (speed : UInt32) (keys : List Key) (entities : List E) : Program C E Unit := do
  let found ← resolve keys []
  tickFound speed found
  offerAll entities

/-- Tick chunks in order, noting nothing. -/
def tickAll (speed : UInt32) : List C → Program C E Unit
  | [] => return ()
  | c :: rest => do
    call (.tickChunk c speed)
    tickAll speed rest

end Program

end GridTick
