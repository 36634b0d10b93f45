import GridTick.Synthetic.Spawn
import GridTick.Tick.Tick

/-!
# GridTick.Synthetic.World — a made-up world to tick

Players wander over the plane and keep the chunks round them loaded; a small area round the origin is always loaded.
Chunks count their ticks as long as they stay loaded.

* `State`: chunks, players, mobs and counters.
* `State.ofPlayers`, `State.movePlayers`, `State.refresh`: a new world, the players' moves, and the loading of chunks.
* `State.stats`: the totals.
* `world`: the answers to the engine's calls.
-/

namespace GridTick.Synthetic

/-- What a chunk counts. -/
structure Counters where
  ticks : UInt64
  randomTicks : UInt64
deriving DecidableEq, Inhabited, Repr

def Counters.zero : Counters := ⟨0, 0⟩

def Counters.count (c : Counters) (speed : UInt32) : Counters := ⟨c.ticks + 1, c.randomTicks + speed.toUInt64⟩

/-- Loaded chunks and their counters. -/
abbrev ChunkTable := Std.ExtTreeMap Key Counters

/-- Cells kept loaded beyond the view. -/
def loadMargin : Nat := 2

/-- The area round the origin that is always loaded. -/
def spawnWindow : Window := ⟨Cell.origin, 3⟩

structure State where
  chunks : ChunkTable
  players : List Position
  source : ChaCha
  herd : Herd
  entityTicks : UInt64
  passengerTicks : UInt64

/-- Totals over the loaded chunks and over all mobs. -/
structure Stats where
  loadedChunks : Nat
  chunkTicks : UInt64
  randomTicks : UInt64
  entityTicks : UInt64
  passengerTicks : UInt64
deriving DecidableEq, Repr

/-- How far a player moves at once, along each axis. -/
def playerStride : Span := Span.between (-8.0) 8.0

/-- Place players one after another. -/
def placePlayers (spread : Float) : Nat → ChaCha → List Position × ChaCha
  | 0, g => ([], g)
  | n + 1, g =>
    let (x, g) := drawBetween (-spread) spread g
    let (z, g) := drawBetween (-spread) spread g
    let (rest, g) := placePlayers spread n g
    (⟨x, z⟩ :: rest, g)

/-- Move players one after another. -/
def stepPlayers : List Position → ChaCha → List Position × ChaCha
  | [], g => ([], g)
  | p :: rest, g =>
    let (dx, g) := playerStride.draw g
    let (dz, g) := playerStride.draw g
    let (rest, g) := stepPlayers rest g
    (p.shift dx dz :: rest, g)

/-- Distance from the origin within which players are placed: at least one block. -/
def effectiveSpread (spread : Float) : Float := if 1.0 < spread then spread else 1.0

/-- Why no player can be placed when the interval is too wide for a double. -/
def spreadFault : Fault := .text "UniformSampler::sample_single: range overflow"

/-- Radius of the chunks kept loaded round a player, for a view distance. -/
def loadRadius (viewDistance : UInt32) : UInt32 := UInt32.ofNat (min (viewDistance.toNat + loadMargin) (twoTo 32 - 1))

/-- Add a key to the table unless it is there, and count it if it was added. -/
def loadKey (acc : ChunkTable × Nat) (k : Key) : ChunkTable × Nat :=
  if acc.1.contains k then acc else (acc.1.insert k Counters.zero, acc.2 + 1)

namespace State

/-- A world with players placed at random, and no chunk or mob. -/
def ofPlayers (players : Nat) (spread : Float) (seed : UInt64) (nextId : UInt32) : Except Fault State :=
  let spread := effectiveSpread spread
  if 0 < players ∧ (spread - (-spread)).isInf then .error spreadFault
  else
    let (placed, source) := placePlayers spread players (ChaCha.ofSeed seed)
    .ok ⟨∅, placed, source, Herd.empty nextId, 0, 0⟩

def agents (s : State) : List Cell := s.players.map Position.cell

def movePlayers (s : State) : State :=
  let (players, source) := stepPlayers s.players s.source
  { s with players, source }

/-- Whether a loaded chunk stays loaded. -/
def retains (agents : List Cell) (radius : UInt32) (c : Cell) : Bool :=
  spawnWindow.covers c || agents.any fun a => a.distance c ≤ radius.toNat

/-- Unload the chunks that nobody is near to. -/
def unloadFar (chunks : ChunkTable) (agents : List Cell) (radius : UInt32) : ChunkTable :=
  chunks.filter fun k _ => retains agents radius k.cell

/-- Load the chunks of the players' windows and of the area round the origin.  Gives the number of new ones. -/
def loadNear (chunks : ChunkTable) (agents : List Cell) (radius : UInt32) : ChunkTable × Nat :=
  let windows := agents.map (Window.mk · radius) ++ [spawnWindow]
  windows.foldl (fun acc w => w.keys.foldl loadKey acc) (chunks, 0)

/-- Load chunks near players and unload the rest.  Gives the numbers of chunks loaded and unloaded. -/
def refresh (s : State) (viewDistance : UInt32) : (Nat × Nat) × State :=
  let radius := loadRadius viewDistance
  let agents := s.agents
  let before := s.chunks.size
  let kept := unloadFar s.chunks agents radius
  let unloaded := before - kept.size
  let (chunks, loaded) := loadNear kept agents radius
  ((loaded, unloaded), { s with chunks })

def loaded (s : State) : List Key := s.chunks.keys

/-- Where new mobs appear: round the players and the origin. -/
def spawnCenters (s : State) : Array Cell := (s.agents ++ [Cell.origin]).toArray

/-- Add mobs, drawing from the world's own source. -/
def spawnOwn (s : State) (centers : Array Cell) (count : Nat) : Nat × State :=
  let (added, herd, source) := spawnBatch centers count s.herd s.source
  (added, { s with herd, source })

/-- Add mobs, drawing from a source of their own. -/
def spawnSeeded (s : State) (seed : UInt64) (centers : Array Cell) (count : Nat) : Nat × State :=
  let (added, herd, _) := spawnBatch centers count s.herd (ChaCha.ofSeed seed)
  (added, { s with herd })

def reap (s : State) : Nat × State :=
  let (n, herd) := s.herd.reap
  (n, { s with herd })

def stats (s : State) : Stats :=
  let (ticks, randomTicks) :=
    s.chunks.foldl (fun (sum : UInt64 × UInt64) _ c => (sum.1 + c.ticks, sum.2 + c.randomTicks)) (0, 0)
  ⟨s.chunks.size, ticks, randomTicks, s.entityTicks, s.passengerTicks⟩

/-- Tick a mob and count it and its riders. -/
def tickEntity (s : State) (r : MobRef) : State :=
  let (riders, herd) := s.herd.tickMob r
  { s with
    herd
    entityTicks := s.entityTicks + 1
    passengerTicks := s.passengerTicks + UInt64.ofNat riders }

/-- Answer a call of the engine.  Nothing here raises a fault. -/
def answer : (c : Call Key MobRef) → State → Except Fault c.Answer × State
  | .lookup k, s => (.ok (if s.chunks.contains k then some k else none), s)
  | .tickChunk k speed, s => (.ok (), { s with chunks := s.chunks.modify k (·.count speed) })
  | .isRemoved r, s => (.ok (s.herd.isRemoved r), s)
  | .isFrozen _, s => (.ok false, s)
  | .vehicle r, s => (.ok (s.herd.vehicleOf r), s)
  | .hasPassenger v r, s => (.ok (s.herd.lists v r), s)
  | .stopRiding r, s => (.ok (), { s with herd := s.herd.stopRiding r })
  | .checkDespawn r, s => (.ok (), { s with herd := s.herd.checkDespawn r })
  | .tickEntity r, s => (.ok (), s.tickEntity r)

end State

def world : World State Key MobRef :=
  ⟨State.answer, id, fun s => s.herd.cellOf, fun s => s.herd.tracked.toList⟩

end GridTick.Synthetic
