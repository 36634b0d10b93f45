import GridTick.Region.Index

/-!
# GridTick.Region.Batch — entities put into regions

A batch is what one tick works on: the regions with their entities, and the entities that stand in none.  Entities
are placed one at a time in tracking order.  The number that the index gives is read as a place in the list of
regions; a number past its end places the entity nowhere.

* `Batch.place`: one entity.
* `Batch.assign`: all of them.
-/

namespace GridTick

/-- Regions with their entities, and the entities that belong to none. -/
structure Batch (E : Type) where
  regions : Array (Region E)
  unassigned : Array E

namespace Batch

variable {E : Type}

def empty : Batch E := ⟨#[], #[]⟩

instance : Inhabited (Batch E) := ⟨empty⟩

def place (index : RegionIndex) (cellOf : E → Cell) (b : Batch E) (e : E) : Batch E :=
  match index.get? (cellOf e).key with
  | some id =>
    if id.place < b.regions.size then { b with regions := b.regions.modify id.place (·.add e) }
    else { b with unassigned := b.unassigned.push e }
  | none => { b with unassigned := b.unassigned.push e }

def assign (regions : List (Region E)) (index : RegionIndex) (cellOf : E → Cell) (entities : List E) : Batch E :=
  entities.foldl (place index cellOf) ⟨regions.toArray, #[]⟩

def regionEntities (b : Batch E) : Nat := b.regions.foldl (fun n r => n + r.entities.size) 0

def describe (b : Batch E) : String :=
  let regions := ", ".intercalate (b.regions.toList.map Region.describe)
  s!"TickBatch \x7b regions: [{regions}], unassigned: {b.unassigned.size} \x7d"

end Batch

end GridTick
