import GridTick.Scripted.World
import GridTick.Tick.Ticker
import GridTick.Tick.History

/-!
# GridTick.Scripted.Scenario — a scripted world put through its steps

A scenario changes a scripted world step by step, offers single mobs their ticks, and runs whole ticks of an engine.
Each step has a report.

* `Step`, `Report`: the steps and what they report.
* `Scenario.run`: all steps in order.
-/

namespace GridTick.Scripted

/-- A fuse that is to be laid: a key of its region, the ticks it allows, and its fault. -/
structure FuseOrder where
  key : Key
  allow : Nat
  fault : Fault
deriving Repr

/-- A tick that is to be run; without a list of its own it is given the chunks loaded in the world. -/
structure TickOrder where
  agents : List Cell
  settings : TickSettings
  deferred : Deferred
  loaded : Option (List Key)
  fuses : List FuseOrder

inductive Step where
  | load (keys : List Key)
  | unload (keys : List Key)
  | hide (keys : List Key)
  | trapLookup (key : Key) (trap : Trap)
  | trapTick (key : Key) (trap : Trap)
  | effect (e : Effect)
  | showState
  | offer (id : MobId)
  | tick (order : TickOrder)

inductive Report where
  | nothing
  | count (n : Nat)
  | population (p : Population)
  | offered (result : Except Fault EntityTick) (events : Array (Event Key MobId))
  | ticked (result : TickResult State Key MobId)

namespace TickOrder

/-- Lay a fuse under the region of a batch that covers its key; without such a region there is none. -/
def layFuse (batch : Batch MobId) (order : FuseOrder) : Option Fuse :=
  (batch.regions.toList.find? (·.chunks.contains order.key)).map fun r => ⟨r.chunks, order.allow, order.fault⟩

/-- Run the tick; fuses do not outlast it. -/
def run (order : TickOrder) (ticker : Ticker) (s : State) : TickResult State Key MobId :=
  let batch := buildBatch s.cellOf s.tracked order.agents order.settings.viewDistance
  let fuses := if order.fuses.isEmpty then [] else order.fuses.filterMap (layFuse batch)
  let turn : Turn Key := ⟨order.agents, order.loaded.getD s.loaded, order.settings, order.deferred⟩
  let result := ticker.tick world Plan.inOrder turn { s with fuses }
  { result with state := { result.state with fuses := [] } }

end TickOrder

def Step.run (ticker : Ticker) (s : State) : Step → Report × State
  | .load keys =>
    let s := s.load keys
    (.count s.loaded.length, s)
  | .unload keys =>
    let s := s.unload keys
    (.count s.loaded.length, s)
  | .hide keys =>
    let s := s.hide keys
    (.count s.hidden.size, s)
  | .trapLookup key trap => (.nothing, { s with lookupTraps := s.lookupTraps.insert key trap })
  | .trapTick key trap => (.nothing, { s with tickTraps := s.tickTraps.insert key trap })
  | .effect e =>
    match e.target with
    | some id => (.nothing, s.withPopulation (s.population.perform id e.deed).2)
    | none => (.nothing, s)
  | .showState => (.population s.population, s)
  | .offer id =>
    let (result, trail) := (Program.contract id).run world .caller ⟨s, ∅, #[]⟩
    (.offered result trail.events, trail.state)
  | .tick order =>
    let result := order.run ticker s
    (.ticked result, result.state)

/-- All steps in order, with their reports. -/
def runSteps (ticker : Ticker) : List Step → State → List Report
  | [], _ => []
  | step :: rest, s =>
    let (report, s) := step.run ticker s
    report :: runSteps ticker rest s

end GridTick.Scripted
