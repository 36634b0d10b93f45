import GridTick.Tick.Pool
import GridTick.Tick.Deferred
import GridTick.Region.Cluster
import GridTick.Region.Batch
import GridTick.Grid.Window

/-!
# GridTick.Tick.Tick — one tick of the world

With regions enabled a tick goes as follows.

1. Every agent sees a window of cells; windows that overlap make one region.
2. The tracked entities are put into the regions that they stand in.
3. The task of each region runs on the workers; a failed one is logged and stops nothing else.
4. Each loaded chunk that no region has ticked is ticked by the calling thread.
5. The entities outside all regions are offered their ticks by the calling thread.
6. The deferred work is joined; its failure is logged.

Without regions the calling thread ticks all loaded chunks, then offers every entity its tick, and joins the deferred
work.  A fault on the calling thread leaves the tick at once.

* `buildBatch`: the first two points.
* `Summary`: the counts of a tick.
* `tick`: all of it.
-/

namespace GridTick

structure Summary where
  regions : Nat
  failedRegions : Nat
  regionChunks : Nat
  fallbackChunks : Nat
  regionEntities : Nat
  skippedEntities : Nat
  unassignedEntities : Nat
deriving DecidableEq, Repr

namespace Summary

def zero : Summary := ⟨0, 0, 0, 0, 0, 0, 0⟩

instance : Inhabited Summary := ⟨zero⟩

/-- Count what the task of a region reported. -/
def add (s : Summary) (o : Outcome) : Summary :=
  match o.fault with
  | none =>
    { s with regionChunks := s.regionChunks + o.chunks.size, regionEntities := s.regionEntities + o.entities }
  | some _ =>
    { s with
      failedRegions := s.failedRegions + 1
      regionChunks := s.regionChunks + o.chunks.size
      skippedEntities := s.skippedEntities + o.entities }

end Summary

/-- The notice of a failed region. -/
def Outcome.notice? (o : Outcome) : Option Notice :=
  o.error?.map fun error => .regionFailed o.region error o.chunks.size

/-- What a tick is given beside the state: agents, loaded chunks, settings and deferred work. -/
structure Turn (C : Type) where
  agents : List Cell
  loaded : List C
  settings : TickSettings
  deferred : Deferred

/-- What a tick leaves: its summary, or the fault that left it; the state; and the history. -/
structure TickResult (σ C E : Type) where
  summary : Except Fault Summary
  state : σ
  events : Array (Event C E)

variable {σ C E : Type}

def buildBatch (cellOf : E → Cell) (tracked : List E) (agents : List Cell) (viewDistance : UInt32) : Batch E :=
  let regions := regionsOf (agents.map fun a => (Window.mk a viewDistance).toSet)
  Batch.assign regions (RegionIndex.ofRegions regions) cellOf tracked

/-- Keys that the outcomes say are done. -/
def ticked (outcomes : List Outcome) : KeySet := outcomes.foldl (fun keys o => keys.union o.chunks) ∅

/-- Loaded chunks that no region has ticked, in their order. -/
def leftover (w : World σ C E) (outcomes : List Outcome) (loaded : List C) : List C :=
  let done := ticked outcomes
  loaded.filter fun c => !done.contains (w.keyOf c)

/-- What the calling thread does after the regions: the leftover chunks, then the entities outside all regions. -/
def sweep (speed : UInt32) (chunks : List C) (entities : List E) : Program C E Unit := do
  Program.tickAll speed chunks
  Program.offerAll entities

/-- Join the deferred work and log its failure. -/
def joinDeferred (deferred : Deferred) (events : Array (Event C E)) : Array (Event C E) :=
  let events := events.push .joined
  match deferred.join with
  | .ok _ => events
  | .error error => events.push (.noticed (.deferredFailed error))

/-- A tick with regions, up to the joining of the deferred work. -/
def tickRegions (w : World σ C E) (plan : Plan) (turn : Turn C) (s : σ) :
    Except Fault Summary × σ × Array (Event C E) :=
  let batch := buildBatch (w.cellOf s) (w.tracked s) turn.agents turn.settings.viewDistance
  let speed := turn.settings.randomTickSpeed
  let regions := batch.regions.toList
  let (outcomes, s, events) := dispatch w plan speed regions s #[]
  let counted := outcomes.foldl Summary.add { Summary.zero with regions := regions.countP (!·.isEmpty) }
  let events := events ++ (outcomes.filterMap Outcome.notice?).toArray.map Event.noticed
  let chunks := leftover w outcomes turn.loaded
  match (sweep speed chunks batch.unassigned.toList).run w .caller ⟨s, ∅, events⟩ with
  | (.error fault, trail) => (.error fault, trail.state, trail.events)
  | (.ok _, trail) =>
    (.ok { counted with fallbackChunks := chunks.length, unassignedEntities := batch.unassigned.size },
      trail.state, trail.events)

/-- A tick without regions, up to the joining of the deferred work.  The entities are read after the chunk ticks. -/
def tickSequential (w : World σ C E) (turn : Turn C) (s : σ) : Except Fault Summary × σ × Array (Event C E) :=
  match (Program.tickAll turn.settings.randomTickSpeed turn.loaded).run w .caller ⟨s, ∅, #[]⟩ with
  | (.error fault, trail) => (.error fault, trail.state, trail.events)
  | (.ok _, ⟨s, recorded, events⟩) =>
    let entities := w.tracked s
    match (Program.offerAll entities).run w .caller ⟨s, recorded, events⟩ with
    | (.error fault, trail) => (.error fault, trail.state, trail.events)
    | (.ok _, trail) =>
      (.ok { Summary.zero with fallbackChunks := turn.loaded.length, unassignedEntities := entities.length },
        trail.state, trail.events)

def tick (w : World σ C E) (enable : Bool) (plan : Plan) (turn : Turn C) (s : σ) : TickResult σ C E :=
  let (result, s, events) := if enable then tickRegions w plan turn s else tickSequential w turn s
  match result with
  | .error fault => ⟨.error fault, s, events⟩
  | .ok summary => ⟨.ok summary, s, joinDeferred turn.deferred events⟩

end GridTick
