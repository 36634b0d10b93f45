import GridTick.Synthetic.World
import GridTick.Tick.Ticker

/-!
# GridTick.Synthetic.Session — a made-up world put through its steps

A session keeps a made-up world, an engine to tick it, and a list that numbers its mobs in the order in which they
were first seen among the tracked ones.

* `Session.spawn`, `Session.spawnBeside`: new mobs, which are then numbered.
* `Session.tick`: several ticks, with or without moves and reaping.
* `Session.census`: what every numbered mob is doing.
-/

namespace GridTick.Synthetic

/-- A made-up world, its engine, and its mobs in the order in which they were seen. -/
structure Session where
  state : State
  ticker : Ticker
  seen : Array MobRef

/-- How a run of ticks goes. -/
structure RunOrder where
  settings : TickSettings
  repeats : Nat
  move : Bool
  reap : Bool
deriving Repr

/-- What a mob is doing. -/
structure CensusEntry where
  cell : Cell
  removed : Bool
  vehicle : Option Nat
  tracked : Bool
deriving DecidableEq, Repr

namespace Session

/-- A session at its start, with a pool of two workers. -/
def start (players : Nat) (spread : Float) (seed : UInt64) (enable : Bool) (nextId : UInt32) : Except Fault Session :=
  match State.ofPlayers players spread seed nextId with
  | .error fault => .error fault
  | .ok state => .ok ⟨state, (Ticker.start { Config.standard with enable, threads := 2 }).1, #[]⟩

def withState (s : Session) (state : State) : Session := { s with state }

def withHerd (s : Session) (herd : Herd) : Session := { s with state := { s.state with herd } }

/-- Number the tracked mobs that were not seen before. -/
def number (s : Session) : Session :=
  let known : Std.ExtTreeSet UInt32 := s.seen.foldl (fun ids r => ids.insert r.id) ∅
  { s with seen := s.seen ++ s.state.herd.tracked.order.filter fun r => !known.contains r.id }

/-- Move every player several times. -/
def move (s : Session) (times : Nat) : Session :=
  s.withState (times.fold (fun _ _ state => state.movePlayers) s.state)

/-- Add mobs from the world's own source, or from one of a given seed. -/
def spawn (s : Session) (centers : Option (Array Cell)) (count : Nat) (seed : Option UInt64) : Nat × Session :=
  let centers := centers.getD s.state.spawnCenters
  let (added, state) := match seed with
    | none => s.state.spawnOwn centers count
    | some seed => s.state.spawnSeeded seed centers count
  (added, (s.withState state).number)

def spawnBeside (s : Session) (centers : Option (Array Cell)) (count : Nat) (seed tick : UInt64) : Nat × Session :=
  s.spawn centers count (some (spawnerSeed seed tick))

/-- One tick of a run: its summary or the fault that left it, and the number of mobs reaped. -/
def tickOnce (order : RunOrder) (s : Session) : Except Fault Summary × Nat × Session :=
  let state := if order.move then (s.state.movePlayers.refresh order.settings.viewDistance).2 else s.state
  let turn : Turn Key := ⟨state.agents, state.loaded, order.settings, .unit⟩
  let result := s.ticker.tick world Plan.inOrder turn state
  let (reaped, state) := if order.reap then result.state.reap else (0, result.state)
  (result.summary, reaped, s.withState state)

/-- Ticks of a run from the first on: the last summary, and the number of mobs reaped in all. -/
def tickMany (order : RunOrder) :
    Nat → Except Fault Summary → Nat → Session → Except Fault Summary × Nat × Session
  | 0, last, reaped, s => (last, reaped, s)
  | n + 1, _, reaped, s =>
    let (last, more, s) := s.tickOnce order
    match last with
    | .error fault => (.error fault, reaped + more, s)
    | .ok _ => tickMany order n last (reaped + more) s

def tick (s : Session) (order : RunOrder) : Except Fault Summary × Nat × Session :=
  tickMany order order.repeats (.ok Summary.zero) 0 s

def mob (s : Session) (i : Nat) : MobRef := s.seen.getD i default

/-- Number under which a mob was first seen. -/
def numberOf (s : Session) (r : MobRef) : Option Nat := s.seen.findIdx? (·.id == r.id)

def census (s : Session) : List CensusEntry :=
  let herd := s.state.herd
  s.seen.toList.map fun r =>
    ⟨herd.cellOf r, herd.isRemoved r, (herd.vehicleOf r).bind s.numberOf, herd.tracked.contains r⟩

/-- Whether one mob rides another, and whether that one lists it. -/
def riding (s : Session) (a b : MobRef) : Bool × Bool :=
  let herd := s.state.herd
  ((herd.vehicleOf a).any (·.id == b.id), herd.lists b a)

end Session

end GridTick.Synthetic
