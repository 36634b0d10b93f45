import GridTick.Tick.Fault
import GridTick.Tracking.Basic
import Std.Data.ExtTreeMap

/-!
# GridTick.Scripted.Mob — mobs that follow scripts

A scripted mob does nothing of its own accord.  It has two lists of effects, one for the check whether it despawns
and one for its tick, and an effect may change any mob, or raise a fault as often as the mob's budget allows.

* `Deed`, `Effect`: one change, and the mob it is aimed at.
* `Population`: the mobs by their numbers, and those that are tracked.
* `Population.perform`: one effect.
* `Population.follow`: a script.
-/

namespace GridTick.Scripted

/-- Number of a mob. -/
abbrev MobId := Nat

/-- Number of faults that are left; without a number there is no end of them. -/
abbrev Budget := Option Nat

/-- Whether a fault is left. -/
def hasFault : Budget → Bool
  | none => true
  | some n => n != 0

/-- The budget after one fault. -/
def spend (b : Budget) : Budget := b.map (· - 1)

inductive Deed where
  | remove
  | restore
  | freeze
  | unfreeze
  | move (cell : Cell)
  | track
  | untrack
  | mount (on : MobId)
  | setVehicle (on : MobId)
  | unlist (on : MobId)
  | detach
  | clearScript
  | raise (fault : Fault)
deriving DecidableEq, Repr

/-- A change, and the mob it is aimed at if that is not the mob that makes it. -/
structure Effect where
  target : Option MobId
  deed : Deed
deriving DecidableEq, Repr

/-- A mob and its scripts. -/
structure Mob where
  cell : Cell
  removed : Bool
  frozen : Bool
  vehicle : Option MobId
  passengers : List MobId
  onDespawn : List Effect
  onTick : List Effect
  faults : Budget
deriving DecidableEq, Repr

/-- A mob is told apart by its number. -/
instance : Identified MobId Nat := ⟨id⟩

/-- All mobs, and the tracked ones. -/
structure Population where
  mobs : Std.ExtTreeMap MobId Mob
  tracked : Tracked MobId Nat

namespace Population

/-- A property of a mob, or a default when there is no such mob. -/
def read {α : Type} (p : Population) (id : MobId) (default : α) (get : Mob → α) : α :=
  match p.mobs[id]? with
  | some m => get m
  | none => default

/-- Change a mob. -/
def update (p : Population) (id : MobId) (change : Mob → Mob) : Population :=
  match p.mobs[id]? with
  | some m => { p with mobs := p.mobs.insert id (change m) }
  | none => p

/-- Strike a mob from the passengers of another. -/
def strike (p : Population) (vehicle passenger : MobId) : Population :=
  p.update vehicle fun m => { m with passengers := m.passengers.filter (· != passenger) }

/-- Take a mob off its vehicle, on both sides. -/
def detach (p : Population) (id : MobId) : Population :=
  match p.read id none (·.vehicle) with
  | none => p
  | some v => (p.update id fun m => { m with vehicle := none }).strike v id

def perform (p : Population) (id : MobId) : Deed → Except Fault Unit × Population
  | .remove => (.ok (), p.update id fun m => { m with removed := true })
  | .restore => (.ok (), p.update id fun m => { m with removed := false })
  | .freeze => (.ok (), p.update id fun m => { m with frozen := true })
  | .unfreeze => (.ok (), p.update id fun m => { m with frozen := false })
  | .move cell => (.ok (), p.update id fun m => { m with cell })
  | .track => (.ok (), { p with tracked := (p.tracked.insert id).2 })
  | .untrack => (.ok (), { p with tracked := (p.tracked.remove id).2 })
  | .mount on =>
    (.ok (), (p.update on fun m => { m with passengers := m.passengers ++ [id] }).update id
      fun m => { m with vehicle := some on })
  | .setVehicle on => (.ok (), p.update id fun m => { m with vehicle := some on })
  | .unlist on => (.ok (), p.strike on id)
  | .detach => (.ok (), p.detach id)
  | .clearScript => (.ok (), p.update id fun m => { m with onDespawn := [], onTick := [] })
  | .raise fault =>
    if p.read id false (hasFault ·.faults) then
      (.error fault, p.update id fun m => { m with faults := spend m.faults })
    else (.ok (), p)

/-- Let a mob follow a script, up to its end or the first fault. -/
def follow (p : Population) (self : MobId) : List Effect → Except Fault Unit × Population
  | [] => (.ok (), p)
  | e :: rest =>
    match p.perform (e.target.getD self) e.deed with
    | (.ok _, p) => p.follow self rest
    | (.error fault, p) => (.error fault, p)

end Population

end GridTick.Scripted
