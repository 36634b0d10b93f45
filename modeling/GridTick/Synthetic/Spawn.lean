import GridTick.Synthetic.Mob

/-!
# GridTick.Synthetic.Spawn — new mobs

New mobs appear round given cells.  What a mob is like is drawn first; some get a rider.  The vehicle takes its number
before the rider does, and is tracked after it.

* `Draft`: what is drawn for one mob.
* `Herd.settle`: one mob, with its rider, from a draft.
* `spawnBatch`: several.
* `spawnerSeed`: the seed of the mobs that appear beside a tick.
-/

namespace GridTick.Synthetic

/-- Blocks to a cell. -/
def blocksPerCell : Float := 16.0

/-- Words out of `2^64` for which a mob gets a rider: one in five. -/
def riderChance : UInt64 := chanceWords 0.2

/-- Shortest lifetime. -/
def minLifetime : Nat := 40

/-- Number of lifetimes that may be drawn. -/
def lifetimeRange : Nat := 360

/-- Lifetime of a rider: it ends with the age counter. -/
def riderLifetime : UInt32 := 0xFFFFFFFF

/-- What is drawn for one mob, with the seed of its rider if it gets one. -/
structure Draft where
  position : Position
  lifetime : UInt32
  seed : UInt64
  riderSeed : Option UInt64

/-- One coordinate of a mob near a cell, at most four cells away. -/
@[specialize] def drawCoordinate {γ : Type} [WordSource γ] (center : Int32) (g : γ) : Float × γ :=
  let (d, g) := drawBetween (-64.0) 64.0 g
  (center.toFloat * blocksPerCell + d, g)

/-- Draw one mob near one of the cells. -/
@[specialize] def drawDraft {γ : Type} [WordSource γ] (centers : Array Cell) (g : γ) : Draft × γ :=
  let (i, g) := drawBelow64 centers.size g
  let center := centers.getD i Cell.origin
  let (x, g) := drawCoordinate center.x g
  let (z, g) := drawCoordinate center.z g
  let (n, g) := drawBelow32 lifetimeRange g
  let (seed, g) := drawWord64 g
  let (ridden, g) := drawChance riderChance g
  let lifetime := UInt32.ofNat (minLifetime + n)
  if ridden then
    let (riderSeed, g) := drawWord64 g
    (⟨⟨x, z⟩, lifetime, seed, some riderSeed⟩, g)
  else (⟨⟨x, z⟩, lifetime, seed, none⟩, g)

namespace Herd

/-- Add a mob, and its rider if the draft has one.  Gives the number of mobs newly tracked. -/
def settle (h : Herd) (d : Draft) : Nat × Herd :=
  let (id, h) := h.takeId
  let (mob, h) := h.keep id (Mob.spawn d.position d.lifetime d.seed)
  match d.riderSeed with
  | none =>
    let (isNew, h) := h.track mob
    (isNew.toNat, h)
  | some seed =>
    let (riderId, h) := h.takeId
    let (rider, h) := h.keep riderId (Mob.spawn d.position riderLifetime seed)
    let h := h.mount rider mob
    let (riderNew, h) := h.track rider
    let (isNew, h) := h.track mob
    (riderNew.toNat + isNew.toNat, h)

end Herd

/-- Draw and add mobs, `added` of them being tracked so far. -/
@[specialize] def spawnMany {γ : Type} [WordSource γ] (centers : Array Cell) :
    Nat → Nat → Herd → γ → Nat × Herd × γ
  | 0, added, h, g => (added, h, g)
  | count + 1, added, h, g =>
    let (d, g) := drawDraft centers g
    let (n, h) := h.settle d
    spawnMany centers count (added + n) h g

/-- Add `count` mobs round some cells, none if there are no cells.  Gives the number of mobs newly tracked. -/
@[specialize] def spawnBatch {γ : Type} [WordSource γ] (centers : Array Cell) (count : Nat) (h : Herd) (g : γ) :
    Nat × Herd × γ :=
  if centers.isEmpty then (0, h, g) else spawnMany centers count 0 h g

/-- Seed of the mobs that appear beside a tick: the tick's number with its halves exchanged, mixed into a seed. -/
def spawnerSeed (seed tick : UInt64) : UInt64 := seed ^^^ ((tick <<< 32) ||| (tick >>> 32))

end GridTick.Synthetic
