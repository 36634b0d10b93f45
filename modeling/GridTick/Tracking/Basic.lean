import Std.Data.ExtTreeSet

/-!
# GridTick.Tracking.Basic — the entities under care

A `Tracked` collection keeps entities in the order in which they were added, no two of them with the same identity.
What an entity carries beside its identity is kept as it was given: adding an entity whose identity is already there
changes nothing.

* `Tracked.insert`, `Tracked.remove`, `Tracked.contains`: each costs one look-up of an identity.
* `Tracked.toList`: the entities in order.
-/

namespace GridTick

/-- What tells two entities apart. -/
class Identified (E : Type) (I : outParam Type) where
  identity : E → I

export Identified (identity)

/-- Entities in the order of their arrival, and the identities of those present. -/
structure Tracked (E I : Type) [Ord I] where
  order : Array E
  members : Std.ExtTreeSet I

namespace Tracked

variable {E I : Type} [Ord I]

def empty : Tracked E I := ⟨#[], ∅⟩

instance : Inhabited (Tracked E I) := ⟨empty⟩

def toList (t : Tracked E I) : List E := t.order.toList

def size (t : Tracked E I) : Nat := t.order.size

def isEmpty (t : Tracked E I) : Bool := t.order.isEmpty

variable [Std.TransOrd I] [Identified E I]

def contains (t : Tracked E I) (e : E) : Bool := t.members.contains (identity e)

/-- Add an entity at the end; `false` and no change when its identity is there already. -/
def insert (t : Tracked E I) (e : E) : Bool × Tracked E I :=
  if t.contains e then (false, t)
  else (true, ⟨t.order.push e, t.members.insert (identity e)⟩)

/-- Drop the entity of that identity, the others keeping their order; `false` when there is none. -/
def remove (t : Tracked E I) (e : E) : Bool × Tracked E I :=
  if t.contains e then
    (true, ⟨t.order.filter fun o => compare (identity o) (identity e) != .eq, t.members.erase (identity e)⟩)
  else (false, t)

def insertAll (t : Tracked E I) (es : List E) : Tracked E I :=
  es.foldl (fun t e => (t.insert e).2) t

def removeAll (t : Tracked E I) (es : List E) : Tracked E I :=
  es.foldl (fun t e => (t.remove e).2) t

/-- A collection made from a list, later repeats of an identity left out. -/
def ofList (es : List E) : Tracked E I := empty.insertAll es

end Tracked

end GridTick
