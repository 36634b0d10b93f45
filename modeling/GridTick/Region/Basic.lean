import GridTick.Grid.Key

/-!
# GridTick.Region.Basic — clusters of chunks

A region is a set of keys that is ticked as one unit, together with the entities that stand in it.  Its number is its
place in the batch that it was made for.
-/

namespace GridTick

/-- Number of a region within one batch. -/
structure RegionId where
  number : UInt32
deriving DecidableEq, Inhabited, Repr

namespace RegionId

/-- The number for a place in a list. -/
def ofPlace (i : Nat) : RegionId := ⟨UInt32.ofNat i⟩

/-- The place in a list that the number points at. -/
def place (r : RegionId) : Nat := r.number.toNat

def text (r : RegionId) : String := toString r.place

def describe (r : RegionId) : String := s!"Region#{r.place}"

end RegionId

/-- A cluster of chunks and the entities in it. -/
structure Region (E : Type) where
  id : RegionId
  chunks : KeySet
  entities : Array E

namespace Region

variable {E : Type}

/-- A region that holds no entity yet. -/
def bare (id : RegionId) (chunks : KeySet) : Region E := ⟨id, chunks, #[]⟩

/-- Whether the region has no chunk; such a region is never dispatched. -/
def isEmpty (r : Region E) : Bool := r.chunks.isEmpty

/-- Add an entity after those already there. -/
def add (r : Region E) (e : E) : Region E := { r with entities := r.entities.push e }

def describe (r : Region E) : String :=
  s!"Region \x7b id: {r.id.describe}, chunks: {r.chunks.size}, entities: {r.entities.size} \x7d"

@[simp] theorem bare_entities (id : RegionId) (chunks : KeySet) :
    (bare id chunks : Region E).entities = #[] := rfl

@[simp] theorem add_id (r : Region E) (e : E) : (r.add e).id = r.id := rfl

@[simp] theorem add_chunks (r : Region E) (e : E) : (r.add e).chunks = r.chunks := rfl

@[simp] theorem add_entities_toList (r : Region E) (e : E) :
    (r.add e).entities.toList = r.entities.toList ++ [e] := by simp [add]

end Region

end GridTick
