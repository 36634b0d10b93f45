import GridTick.Tick.Tick

/-!
# GridTick.Tick.History — reading the history of a tick

What the events of a tick say about chunks, entities and the log.

* `Event.chunkTick?`, `Event.entityCall?`, `Event.notice?`: what one event is.
* `chunkTicks`, `entityCalls`, `notices`: the same for a whole history.
* `historyOf`: what comes from one origin.
* `tickedKeys`: the keys of the chunks whose ticks returned.
* `offered`: the entities passed to the contract.
* `recordedKeys`: the keys noted as ticked.
-/

namespace GridTick

/-- A call that an entity takes note of. -/
inductive EntityCall where
  | despawnCheck
  | dismount
  | tick
deriving DecidableEq, Repr

namespace Event

variable {C E : Type}

/-- A chunk tick that returned: its lane, the chunk and the speed. -/
def chunkTick? : Event C E → Option (Lane × C × UInt32)
  | .called origin (.tickChunk c speed) (.ok _) => some (origin.lane, c, speed)
  | _ => none

/-- A call to an entity, returned or not: its lane, the call and the entity. -/
def entityCall? : Event C E → Option (Lane × EntityCall × E)
  | .called origin (.checkDespawn e) _ => some (origin.lane, .despawnCheck, e)
  | .called origin (.stopRiding e) _ => some (origin.lane, .dismount, e)
  | .called origin (.tickEntity e) _ => some (origin.lane, .tick, e)
  | _ => none

def notice? : Event C E → Option Notice
  | .noticed n => some n
  | _ => none

/-- The task, or the calling thread, that an event comes from. -/
def origin? : Event C E → Option Origin
  | .called origin _ _ => some origin
  | .marked origin _ => some origin
  | .noticed _ => none
  | .joined => none

/-- The fault of a call that did not return. -/
def fault? : Event C E → Option Fault
  | .called _ _ (.error fault) => some fault
  | _ => none

/-- An entity that the contract is about to be called for. -/
def offered? : Event C E → Option E
  | .marked _ (.offered e) => some e
  | _ => none

/-- The keys noted as ticked, after one more event. -/
def record : Event C E → KeySet → KeySet
  | .marked _ m, keys => m.record keys
  | _, keys => keys

end Event

variable {C E : Type}

def chunkTicks (events : Array (Event C E)) : List (Lane × C × UInt32) := events.toList.filterMap Event.chunkTick?

def entityCalls (events : Array (Event C E)) : List (Lane × EntityCall × E) :=
  events.toList.filterMap Event.entityCall?

def notices (events : Array (Event C E)) : List Notice := events.toList.filterMap Event.notice?

/-- The events that come from an origin, in order. -/
def historyOf (origin : Origin) (events : List (Event C E)) : List (Event C E) :=
  events.filter (·.origin? = some origin)

def tickedKeys {σ : Type} (w : World σ C E) (events : List (Event C E)) : List Key :=
  (events.filterMap Event.chunkTick?).map fun t => w.keyOf t.2.1

def offered (events : List (Event C E)) : List E := events.filterMap Event.offered?

/-- The keys noted as ticked, added to those that were noted before. -/
def recordedKeys (keys : KeySet) (events : List (Event C E)) : KeySet := events.foldl (fun keys e => e.record keys) keys

end GridTick
