import GridTick.Scripted.Mob
import GridTick.Tick.Tick

/-!
# GridTick.Scripted.World — a world with traps

Chunks are keys that are loaded or not.  A look-up finds a loaded key unless it is hidden.  A look-up or a chunk tick
may be trapped, so that it raises a fault a number of times; a fuse lets the chunks of a region tick so many times and
raises a fault at the next tick.

* `State`: population, chunks, traps and fuses.
* `world`: the answers to the engine's calls.
-/

namespace GridTick.Scripted

/-- A fault that a key raises, and how often. -/
structure Trap where
  times : Budget
  fault : Fault
deriving DecidableEq, Repr

/-- Keys of a region, how many ticks they may still have, and the fault that follows. -/
structure Fuse where
  keys : KeySet
  allow : Nat
  fault : Fault

structure State where
  population : Population
  loaded : List Key
  present : KeySet
  hidden : KeySet
  lookupTraps : Std.ExtTreeMap Key Trap
  tickTraps : Std.ExtTreeMap Key Trap
  fuses : List Fuse

/-- The fault of a trapped key, and the traps after it. -/
def spring (traps : Std.ExtTreeMap Key Trap) (k : Key) : Option (Fault × Std.ExtTreeMap Key Trap) :=
  match traps[k]? with
  | some t => if hasFault t.times then some (t.fault, traps.insert k { t with times := spend t.times }) else none
  | none => none

/-- One tick of a key against the fuses: the fault of one that burns, and the fuses after it. -/
def burn (k : Key) : List Fuse → Option Fault × List Fuse
  | [] => (none, [])
  | f :: rest =>
    if f.keys.contains k then
      match f.allow with
      | 0 => (some f.fault, rest)
      | n + 1 =>
        let (fault, rest) := burn k rest
        (fault, { f with allow := n } :: rest)
    else
      let (fault, rest) := burn k rest
      (fault, f :: rest)

namespace State

/-- A world with mobs and loaded chunks and no traps. -/
def ofPopulation (p : Population) (chunks : List Key) : State :=
  ⟨p, chunks, Std.ExtTreeSet.ofList chunks, ∅, ∅, ∅, []⟩

/-- Load chunks behind those already loaded. -/
def load (s : State) (keys : List Key) : State :=
  { s with loaded := s.loaded ++ keys, present := s.present.insertMany keys }

/-- Drop every entry of some keys. -/
def unload (s : State) (keys : List Key) : State :=
  let gone : KeySet := Std.ExtTreeSet.ofList keys
  { s with loaded := s.loaded.filter (!gone.contains ·), present := s.present.filter (!gone.contains ·) }

/-- Let look-ups of some keys miss. -/
def hide (s : State) (keys : List Key) : State := { s with hidden := s.hidden.insertMany keys }

/-- Change the population. -/
def withPopulation (s : State) (p : Population) : State := { s with population := p }

/-- Look a key up. -/
def lookup (s : State) (k : Key) : Except Fault (Option Key) × State :=
  match spring s.lookupTraps k with
  | some (fault, traps) => (.error fault, { s with lookupTraps := traps })
  | none => (.ok (if s.present.contains k && !s.hidden.contains k then some k else none), s)

/-- Tick the chunk of a key. -/
def tickChunk (s : State) (k : Key) : Except Fault Unit × State :=
  match spring s.tickTraps k with
  | some (fault, traps) => (.error fault, { s with tickTraps := traps })
  | none =>
    match burn k s.fuses with
    | (some fault, fuses) => (.error fault, { s with fuses })
    | (none, fuses) => (.ok (), { s with fuses })

/-- Let a mob follow one of its scripts. -/
def follow (s : State) (id : MobId) (script : Mob → List Effect) : Except Fault Unit × State :=
  let (r, p) := s.population.follow id (s.population.read id [] script)
  (r, s.withPopulation p)

/-- Answer a call of the engine. -/
def answer : (c : Call Key MobId) → State → Except Fault c.Answer × State
  | .lookup k, s => s.lookup k
  | .tickChunk k _, s => s.tickChunk k
  | .isRemoved id, s => (.ok (s.population.read id false (·.removed)), s)
  | .isFrozen id, s => (.ok (s.population.read id false (·.frozen)), s)
  | .vehicle id, s => (.ok (s.population.read id none (·.vehicle)), s)
  | .hasPassenger v id, s => (.ok (s.population.read v false (·.passengers.contains id)), s)
  | .stopRiding id, s => (.ok (), s.withPopulation (s.population.detach id))
  | .checkDespawn id, s => s.follow id (·.onDespawn)
  | .tickEntity id, s => s.follow id (·.onTick)

/-- Cell of a mob. -/
def cellOf (s : State) (id : MobId) : Cell := s.population.read id Cell.origin (·.cell)

/-- The tracked mobs in order. -/
def tracked (s : State) : List MobId := s.population.tracked.toList

end State

def world : World State Key MobId := ⟨State.answer, id, State.cellOf, State.tracked⟩

end GridTick.Scripted
