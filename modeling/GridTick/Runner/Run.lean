import GridTick.Runner.Options
import GridTick.Settings.Reader
import GridTick.Synthetic.World
import GridTick.Tick.Ticker

/-!
# GridTick.Runner.Run — driving a made-up world

A run reads its configuration, fills a made-up world, and ticks it a number of times while a few mobs appear beside
every tick.  Each twentieth tick has a line of its own in the log.

* `loadConfig`: the configuration, or why the run does not start.
* `Simulation.start`, `Simulation.step`: the world filled, and one tick of it.
* `Simulation.finish`: all ticks.
* `closing`: the end of the engine.
* `run`: what a whole run says.
-/

namespace GridTick.Runner

/-- Mobs that appear beside every tick. -/
def spawnsPerTick : Nat := 4

/-- Blocks from the origin within which players are placed. -/
def playerSpread : Float := 2000.0

/-- Random ticks of a chunk in each tick. -/
def randomTickSpeed : UInt32 := 3

/-- Number of ticks to one line of the log. -/
def reportEvery : Nat := 20

/-- Where the configuration comes from: no file, one that cannot be read, or the text of one. -/
inductive ConfigFile where
  | absent
  | unreadable (path : String)
  | text (path content : String)
deriving DecidableEq, Repr

/-- Why a run does not start. -/
inductive StartFailure where
  | reading (path : String)
  | parsing (path : String) (problem : Problem)
deriving DecidableEq, Repr

/-- Line about a run that does not start. -/
def StartFailure.message : StartFailure → String
  | .reading path => s!"Error: reading config {path}"
  | .parsing path _ => s!"Error: parsing config {path}"

def loadConfig : ConfigFile → Except StartFailure Config
  | .absent => .ok Config.standard
  | .unreadable path => .error (.reading path)
  | .text path content =>
    match Config.parse content with
    | .ok c => .ok c
    | .error problem => .error (.parsing path problem)

/-- Named values of a log line. -/
abbrev Fields := List (String × String)

/-- The line at the start: the numbers of the run and the configuration before it is checked. -/
def startFields (o : Options) (c : Config) : Fields :=
  [("enable", toString c.enable), ("threads", toString c.threads.toNat), ("timeout", toString c.timeoutSeconds.toNat),
    ("ticks", toString o.ticks), ("target_tps", layout.write o.targetRate), ("players", toString o.players),
    ("entities", toString o.entities), ("view_distance", toString o.viewDistance.toNat)]

/-- A filled world and its engine, after some ticks. -/
structure Simulation where
  state : Synthetic.State
  ticker : Ticker
  settings : TickSettings
  seed : UInt64
  done : Nat

/-- What one tick of a run counts. -/
structure TickCount where
  tick : Nat
  summary : Summary
  tracked : Nat
deriving Repr

def TickCount.fields (t : TickCount) : Fields :=
  [("tick", toString t.tick), ("regions", toString t.summary.regions),
    ("region_chunks", toString t.summary.regionChunks), ("fallback_chunks", toString t.summary.fallbackChunks)]

/-- Whether a tick has a line of its own. -/
def TickCount.isReported (t : TickCount) : Bool := t.tick % reportEvery == 0

def TickCount.failureFields (t : TickCount) : Fields :=
  [("tick", toString t.tick), ("failed", toString t.summary.failedRegions),
    ("skipped", toString t.summary.skippedEntities)]

/-- The rest of the line of a tick: the counts of entities. -/
def TickCount.entityFields (t : TickCount) : Fields :=
  [("region_entities", toString t.summary.regionEntities),
    ("unassigned_entities", toString t.summary.unassignedEntities), ("tracked", toString t.tracked)]

def populatedFields (spawned loaded : Nat) : Fields :=
  [("spawned", toString spawned), ("loaded", toString loaded)]

namespace Simulation

/-- Fill a world.  Gives the number of mobs. -/
def start (o : Options) (ticker : Ticker) : Except Fault (Nat × Simulation) :=
  match Synthetic.State.ofPlayers o.players playerSpread o.seed 0 with
  | .error fault => .error fault
  | .ok state =>
    let (_, state) := state.refresh o.viewDistance
    let (spawned, state) := state.spawnOwn state.spawnCenters o.entities
    .ok (spawned, ⟨state, ticker, ⟨o.viewDistance, randomTickSpeed⟩, o.seed, 0⟩)

/-- One tick: players move, chunks are loaded, the world is ticked while mobs appear, and removed mobs are reaped. -/
def step (s : Simulation) : Except Fault TickCount × Simulation :=
  let (_, state) := s.state.movePlayers.refresh s.settings.viewDistance
  let centers := state.spawnCenters
  let turn : Turn Key := ⟨state.agents, state.loaded, s.settings, .thread none⟩
  let result := s.ticker.tick Synthetic.world Plan.inOrder turn state
  let (_, state) := result.state.spawnSeeded (Synthetic.spawnerSeed s.seed (UInt64.ofNat s.done)) centers spawnsPerTick
  let (_, state) := state.reap
  let next := { s with state, done := s.done + 1 }
  match result.summary with
  | .error fault => (.error fault, next)
  | .ok summary => (.ok ⟨s.done, summary, state.herd.tracked.size⟩, next)

/-- All ticks, with the counts of those that have a line. -/
def finish : Nat → Array TickCount → Simulation → Except Fault (Array TickCount × Simulation)
  | 0, lines, s => .ok (lines, s)
  | n + 1, lines, s =>
    match s.step with
    | (.error fault, _) => .error fault
    | (.ok t, s) => finish n (if t.isReported then lines.push t else lines) s

def doneFields (ticks : Nat) (s : Simulation) : Fields :=
  let stats := s.state.stats
  [("ticks", toString ticks), ("loaded_chunks", toString stats.loadedChunks),
    ("chunk_ticks", toString stats.chunkTicks.toNat), ("random_ticks", toString stats.randomTicks.toNat)]

/-- The rest of the line at the end: the counts of entities. -/
def doneEntityFields (s : Simulation) : Fields :=
  let stats := s.state.stats
  [("entity_ticks", toString stats.entityTicks.toNat), ("passenger_ticks", toString stats.passengerTicks.toNat)]

end Simulation

def errorCode : UInt32 := 1

def faultCode : UInt32 := 101

/-- Lines about a fault that ends a run: a blank one sets it off from the log. -/
def faultLines (fault : Fault) : List String := ["", fault.message]

/-- The end of the engine: the exit code, and the lines said when it did not end well. -/
def closing (ticker : Ticker) (clock : Clock) (receipts : List Receipt) : UInt32 × List String :=
  match ticker.shutdown clock receipts with
  | .error fault => (faultCode, faultLines fault)
  | .ok (.error e) => (errorCode, [s!"Error: {e.message}"])
  | .ok (.ok _) => (0, [])

/-- What a whole run says; a run that ends well has no lines of failure. -/
structure RunReport where
  exitCode : UInt32
  failure : List String
  start : Option Fields
  notices : List Notice
  populated : Option Fields
  ticks : List Fields
  done : Option Fields

def run (lookup : String → Option String) (file : ConfigFile) (clock : Clock) : RunReport :=
  match loadConfig file with
  | .error failure => ⟨errorCode, [failure.message], none, [], none, [], none⟩
  | .ok config =>
    let o := Options.ofVariables lookup
    let start := startFields o config
    let (ticker, notices) := Ticker.start config
    match Simulation.start o ticker with
    | .error fault => ⟨faultCode, faultLines fault, some start, notices, none, [], none⟩
    | .ok (spawned, s) =>
      let populated := populatedFields spawned s.state.chunks.size
      match s.finish o.ticks #[] with
      | .error fault => ⟨faultCode, faultLines fault, some start, notices, some populated, [], none⟩
      | .ok (lines, s) =>
        let (exitCode, failure) := closing ticker clock (Executor.exits ticker.executor.threads)
        ⟨exitCode, failure, some start, notices, some populated, lines.toList.map TickCount.fields,
          some (s.doneFields o.ticks)⟩

end GridTick.Runner
