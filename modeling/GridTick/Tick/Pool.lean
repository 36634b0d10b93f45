import GridTick.Tick.RegionTask
import GridTick.Tick.Executor

/-!
# GridTick.Tick.Pool — region tasks side by side

The tasks of the regions of a batch run beside one another on one state.  A `Plan` fixes what the batch leaves open:
in which order a region lists its keys, and how the tasks take turns.  A turn is one call, one note, or the report of
a task that has ended; when the plan's turns are over, the tasks left run one after another.

* `Pool.turn`, `Pool.drain`, `Pool.run`: taking turns, and running to the end.
* `Outcome`: what a task reports; a fault in it stays inside it.
* `dispatch`: the outcomes of a batch, in the order of their regions.
-/

namespace GridTick

/-- What the task of a region reports; its place is that of the region in the batch. -/
structure Outcome where
  place : Nat
  region : RegionId
  chunks : KeySet
  entities : Nat
  fault : Option Fault

/-- The failure of an outcome that has a fault. -/
def Outcome.error? (o : Outcome) : Option TickError :=
  o.fault.map fun fault => .regionTaskFailed o.region fault.message

/-- What a batch leaves open: the order of a region's keys, and whose turn it is. -/
structure Plan where
  enumerate : RegionId → KeySet → List Key
  enumerate_perm : ∀ id keys, (enumerate id keys).Perm keys.toList
  turns : List Nat

/-- Keys in their own order, and one task after another. -/
def Plan.inOrder : Plan := ⟨fun _ keys => keys.toList, fun _ _ => List.Perm.refl _, []⟩

instance : Inhabited Plan := ⟨Plan.inOrder⟩

/-- How far a task has come. -/
inductive Stage (C E : Type) where
  | running (rest : Program C E Unit)
  | ended (fault : Option Fault)

/-- A task that has not reported yet. -/
structure Task (C E : Type) where
  place : Nat
  region : RegionId
  entities : Nat
  recorded : KeySet
  stage : Stage C E

namespace Task

variable {σ C E : Type}

/-- The task of the region at a place. -/
def ofRegion (plan : Plan) (speed : UInt32) (r : Region E) (place : Nat) : Task C E :=
  ⟨place, r.id, r.entities.size, ∅,
    .running (Program.regionTask speed (plan.enumerate r.id r.chunks) r.entities.toList)⟩

def outcome (t : Task C E) (fault : Option Fault) : Outcome := ⟨t.place, t.region, t.recorded, t.entities, fault⟩

/-- The origin of what a task does. -/
def origin (t : Task C E) : Origin := .task t.place t.region

/-- A task after one step of its program, with the trail of the pool. -/
def step (w : World σ C E) (t : Task C E) (s : σ) (events : Array (Event C E)) :
    Task C E × σ × Array (Event C E) :=
  match t.stage with
  | .ended _ => (t, s, events)
  | .running (.done _) => ({ t with stage := .ended none }, s, events)
  | .running p =>
    match p.step w t.origin ⟨s, t.recorded, events⟩ with
    | (.ok rest, ⟨s, recorded, events⟩) => ({ t with recorded, stage := .running rest }, s, events)
    | (.error fault, ⟨s, recorded, events⟩) => ({ t with recorded, stage := .ended (some fault) }, s, events)

/-- A task run to its end. -/
def finish (w : World σ C E) (t : Task C E) (s : σ) (events : Array (Event C E)) :
    Outcome × σ × Array (Event C E) :=
  match t.stage with
  | .ended fault => (t.outcome fault, s, events)
  | .running p =>
    match p.run w t.origin ⟨s, t.recorded, events⟩ with
    | (.ok _, ⟨s, recorded, events⟩) => ({ t with recorded }.outcome none, s, events)
    | (.error fault, ⟨s, recorded, events⟩) => ({ t with recorded }.outcome (some fault), s, events)

end Task

/-- Tasks at work: those that have not reported, the reports so far, and what they share. -/
structure Pool (σ C E : Type) where
  tasks : List (Task C E)
  reports : List Outcome
  state : σ
  events : Array (Event C E)

namespace Pool

variable {σ C E : Type}

/-- The task at place `i` takes a turn: a step, or its report when it has ended. -/
def turn (w : World σ C E) (pool : Pool σ C E) (i : Nat) : Pool σ C E :=
  match pool.tasks[i]? with
  | none => pool
  | some t =>
    match t.stage with
    | .ended fault =>
      { pool with tasks := pool.tasks.eraseIdx i, reports := pool.reports ++ [t.outcome fault] }
    | .running _ =>
      let (t, state, events) := t.step w pool.state pool.events
      { pool with tasks := pool.tasks.set i t, state, events }

def drain (w : World σ C E) :
    List (Task C E) → σ → Array (Event C E) → List Outcome × σ × Array (Event C E)
  | [], s, events => ([], s, events)
  | t :: rest, s, events =>
    let (outcome, s, events) := t.finish w s events
    let (outcomes, s, events) := drain w rest s events
    (outcome :: outcomes, s, events)

def run (w : World σ C E) (turns : List Nat) (pool : Pool σ C E) : List Outcome × σ × Array (Event C E) :=
  let pool := turns.foldl (turn w) pool
  let (outcomes, s, events) := drain w pool.tasks pool.state pool.events
  (pool.reports ++ outcomes, s, events)

end Pool

variable {σ C E : Type}

/-- The regions that have a chunk, with their places in the batch. -/
def jobs (regions : List (Region E)) : List (Region E × Nat) := regions.zipIdx.filter (!·.1.isEmpty)

/-- Run the task of every region that has a chunk; the outcomes come back in the order of the regions. -/
def dispatch (w : World σ C E) (plan : Plan) (speed : UInt32) (regions : List (Region E)) (s : σ)
    (events : Array (Event C E)) : List Outcome × σ × Array (Event C E) :=
  let tasks := (jobs regions).map fun (r, place) => Task.ofRegion plan speed r place
  let (outcomes, s, events) := Pool.run w plan.turns ⟨tasks, [], s, events⟩
  (outcomes.mergeSort (·.region.number ≤ ·.region.number), s, events)

end GridTick
