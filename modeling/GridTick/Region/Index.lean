import GridTick.Region.Basic
import Std.Data.ExtTreeMap

/-!
# GridTick.Region.Index — which region owns a key

The index of a list of regions maps each of their keys to the number of a region that holds it.  Where regions share
a key, the last of them in the list owns it.
-/

namespace GridTick

/-- From keys to the numbers of the regions that own them. -/
structure RegionIndex where
  owners : Std.ExtTreeMap Key RegionId

namespace RegionIndex

def empty : RegionIndex := ⟨∅⟩

instance : Inhabited RegionIndex := ⟨empty⟩

/-- Let a region own all its keys, taking over those that others own. -/
def claim {E : Type} (index : RegionIndex) (r : Region E) : RegionIndex :=
  ⟨r.chunks.foldl (fun owners k => owners.insert k r.id) index.owners⟩

/-- The index of a list of regions. -/
def ofRegions {E : Type} (regions : List (Region E)) : RegionIndex :=
  regions.foldl claim empty

/-- Number of the region that owns a key. -/
def get? (index : RegionIndex) (k : Key) : Option RegionId := index.owners[k]?

def size (index : RegionIndex) : Nat := index.owners.size

def isEmpty (index : RegionIndex) : Bool := index.owners.isEmpty

end RegionIndex

end GridTick
