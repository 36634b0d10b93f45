import GridTick.Settings.Config

/-!
# GridTick.Tick.World — what the engine asks of the world it ticks

The engine owns neither chunks nor entities.  It makes calls, and a `World` answers each of them from a state: with a
value or with a fault, and with the state that it leaves.  Whatever the calls do to the state is the world's affair.

* `Call`, `Call.Answer`: the calls and the type of their answers.
* `World`: the answers, the key of a chunk handle, and two readings of the state: which entities are tracked, and
  where an entity stands.
* `Event`: one entry of the history of a tick.
-/

namespace GridTick

/-- A call on the world; `C` is its handle for a chunk and `E` its handle for an entity. -/
inductive Call (C E : Type) where
  /-- The loaded chunk of a key, if there is one. -/
  | lookup (key : Key)
  | tickChunk (chunk : C) (speed : UInt32)
  | isRemoved (entity : E)
  | isFrozen (entity : E)
  | vehicle (entity : E)
  /-- Whether a vehicle lists an entity among its passengers. -/
  | hasPassenger (vehicle passenger : E)
  | stopRiding (entity : E)
  /-- Remove an entity if its time has come. -/
  | checkDespawn (entity : E)
  | tickEntity (entity : E)
deriving DecidableEq, Repr

@[reducible] def Call.Answer {C E : Type} : Call C E → Type
  | .lookup _ => Option C
  | .isRemoved _ => Bool
  | .isFrozen _ => Bool
  | .vehicle _ => Option E
  | .hasPassenger _ _ => Bool
  | .tickChunk _ _ => Unit
  | .stopRiding _ => Unit
  | .checkDespawn _ => Unit
  | .tickEntity _ => Unit

structure World (σ C E : Type) where
  /-- Answer a call from a state. -/
  answer : (call : Call C E) → σ → Except Fault call.Answer × σ
  keyOf : C → Key
  cellOf : σ → E → Cell
  /-- The tracked entities in order, read under the lock of their collection. -/
  tracked : σ → List E

inductive EntityTick where
  | removed
  | frozen
  /-- Its vehicle carries it. -/
  | passenger
  /-- It was ticked, after being taken off a vehicle that no longer carried it. -/
  | ticked (dismounted : Bool)
deriving DecidableEq, Repr

def EntityTick.describe : EntityTick → String
  | .removed => "Removed"
  | .frozen => "Frozen"
  | .passenger => "Passenger"
  | .ticked dismounted => s!"Ticked \x7b dismounted: {dismounted} \x7d"

/-- Who makes a call: the task of a region, or the thread that called for the tick. -/
inductive Lane where
  | region (id : RegionId)
  | caller
deriving DecidableEq, Repr

/-- Where an entry of the history comes from.  A task is told by the place of its region in the batch, for region
numbers come round again after `2^32` of them. -/
inductive Origin where
  | task (place : Nat) (region : RegionId)
  | caller
deriving DecidableEq, Repr

def Origin.lane : Origin → Lane
  | .task _ id => .region id
  | .caller => .caller

/-- What is noted down between calls. -/
inductive Mark (E : Type) where
  /-- The chunk of a key has been ticked. -/
  | recorded (key : Key)
  /-- An entity is about to be offered its tick. -/
  | offered (entity : E)
  /-- The offer came to an end. -/
  | settled (entity : E) (result : EntityTick)
deriving DecidableEq, Repr

inductive Event (C E : Type) where
  /-- A call, with its answer or the fault that ended it. -/
  | called (origin : Origin) (call : Call C E) (answer : Except Fault call.Answer)
  | marked (origin : Origin) (mark : Mark E)
  | noticed (notice : Notice)
  | joined

end GridTick
