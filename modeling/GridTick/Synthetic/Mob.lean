import GridTick.Grid.Position
import GridTick.Tracking.Basic
import GridTick.Random.ChaCha

/-!
# GridTick.Synthetic.Mob — wandering mobs and their riders

A mob wanders by a random source of its own, grows older with each tick, and despawns once it has lived its time.  It
may carry riders, which stay where it is and age with it.  Mobs are told apart by their numbers, which are handed out
one after another and start again after `2^32 - 1`.

* `Herd`: all mobs, the tracked ones, and the next number.
* `Herd.mount`, `Herd.stopRiding`, `Herd.checkDespawn`, `Herd.tickMob`: what may happen to a mob.
* `Herd.reap`: removed mobs leave the tracked ones.
-/

namespace GridTick.Synthetic

/-- Handle of a mob: where it is kept, and its number. -/
structure MobRef where
  slot : Nat
  id : UInt32
deriving DecidableEq, Inhabited, Repr

/-- A mob is told apart by its number. -/
instance : Identified MobRef UInt32 := ⟨MobRef.id⟩

/-- A mob. -/
structure Mob where
  position : Position
  age : UInt32
  lifetime : UInt32
  removed : Bool
  vehicle : Option MobRef
  passengers : List MobRef
  source : ChaCha

/-- A new mob. -/
def Mob.spawn (position : Position) (lifetime : UInt32) (seed : UInt64) : Mob :=
  ⟨position, 0, lifetime, false, none, [], ChaCha.ofSeed seed⟩

/-- How far a mob wanders in one tick, along each axis. -/
def stride : Span := Span.between (-4.0) 4.0

/-- Move a mob by its own source. -/
def Mob.wander (m : Mob) : Mob :=
  let (dx, source) := stride.draw m.source
  let (dz, source) := stride.draw source
  { m with position := m.position.shift dx dz, source }

/-- A mob one tick older. -/
def Mob.grow (m : Mob) : Mob := { m with age := m.age + 1 }

/-- All mobs, the tracked ones in order, and the next number. -/
structure Herd where
  mobs : Array Mob
  tracked : Tracked MobRef UInt32
  nextId : UInt32

namespace Herd

def empty (nextId : UInt32) : Herd := ⟨#[], Tracked.empty, nextId⟩

/-- A property of a mob, or a default for a handle of none. -/
def read {α : Type} (h : Herd) (r : MobRef) (default : α) (get : Mob → α) : α :=
  match h.mobs[r.slot]? with
  | some m => get m
  | none => default

/-- Change a mob. -/
def update (h : Herd) (r : MobRef) (change : Mob → Mob) : Herd :=
  { h with mobs := h.mobs.modify r.slot change }

/-- Change several mobs, one after another. -/
def updateAll (h : Herd) (rs : List MobRef) (change : Mob → Mob) : Herd :=
  rs.foldl (fun h r => h.update r change) h

/-- Hand out a number. -/
def takeId (h : Herd) : UInt32 × Herd := (h.nextId, { h with nextId := h.nextId + 1 })

/-- Keep a new mob under a number. -/
def keep (h : Herd) (id : UInt32) (m : Mob) : MobRef × Herd :=
  (⟨h.mobs.size, id⟩, { h with mobs := h.mobs.push m })

/-- Track a mob; `false` when its number is tracked already. -/
def track (h : Herd) (r : MobRef) : Bool × Herd :=
  let (isNew, tracked) := h.tracked.insert r
  (isNew, { h with tracked })

/-- Stop tracking a mob; `false` when its number is not tracked. -/
def untrack (h : Herd) (r : MobRef) : Bool × Herd :=
  let (was, tracked) := h.tracked.remove r
  (was, { h with tracked })

/-- Cell that a mob stands in. -/
def cellOf (h : Herd) (r : MobRef) : Cell := h.read r Cell.origin (·.position.cell)

/-- Whether a mob has been removed. -/
def isRemoved (h : Herd) (r : MobRef) : Bool := h.read r false (·.removed)

/-- The mob that a mob rides. -/
def vehicleOf (h : Herd) (r : MobRef) : Option MobRef := h.read r none (·.vehicle)

/-- The riders of a mob. -/
def passengersOf (h : Herd) (r : MobRef) : List MobRef := h.read r [] (·.passengers)

/-- Whether a mob lists another among its riders, by number. -/
def lists (h : Herd) (vehicle rider : MobRef) : Bool := (h.passengersOf vehicle).any (·.id == rider.id)

def mount (h : Herd) (rider vehicle : MobRef) : Herd :=
  (h.update rider fun m => { m with vehicle := some vehicle }).update vehicle
    fun m => { m with passengers := m.passengers ++ [rider] }

def stopRiding (h : Herd) (rider : MobRef) : Herd :=
  match h.vehicleOf rider with
  | none => h
  | some v =>
    (h.update rider fun m => { m with vehicle := none }).update v
      fun m => { m with passengers := m.passengers.filter (·.id != rider.id) }

/-- Remove a mob that has lived its time and set its riders down. -/
def checkDespawn (h : Herd) (r : MobRef) : Herd :=
  match h.mobs[r.slot]? with
  | none => h
  | some m =>
    if m.age < m.lifetime ∨ m.removed then h
    else
      (h.update r fun m => { m with removed := true, passengers := [] }).updateAll m.passengers
        fun p => { p with vehicle := none }

/-- Tick a mob: it wanders, grows older and carries its riders along.  Gives the number of riders. -/
def tickMob (h : Herd) (r : MobRef) : Nat × Herd :=
  let h := h.update r fun m => m.wander.grow
  match h.mobs[r.slot]? with
  | none => (0, h)
  | some m =>
    let position := m.position
    let riders := m.passengers
    (riders.length, h.updateAll riders fun p => ({ p with position }).grow)

def reap (h : Herd) : Nat × Herd :=
  let gone := h.tracked.toList.filter h.isRemoved
  (gone.length, { h with tracked := h.tracked.removeAll gone })

end Herd

end GridTick.Synthetic
