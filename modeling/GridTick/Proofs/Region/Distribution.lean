import GridTick.Proofs.Region.Components
import GridTick.Proofs.Region.Ownership

/-!
# GridTick.Proofs.Region.Distribution — entities distributed by any index

An index may be made for other regions than those that entities are put into, and neither list need be numbered by
place, share no keys or hold no entities.  Still every entity goes to one place, told by the index alone.

* `RegionIndex.get?_eq_some_iff`, `RegionIndex.get?_eq_none_iff`: the last region of the list that has a key owns it.
* `RegionIndex.size_ofRegions`: the keys that are owned are those of the regions together.
* `Batch.destination_eq_some_iff`, `Batch.destination_eq_none_iff`: where an index sends an entity.
* `Distributed`, `assign_distributed`: the batch that any regions and any index give.
-/

namespace GridTick

variable {E F : Type}

/-! ## Owners -/

/-- An index that follows a list of regions: the last region that has a key owns it, and a key that no region has is
owned by none. -/
structure RegionIndex.Follows (index : RegionIndex) (regions : List (Region F)) : Prop where
  owned : ∀ k id, index.get? k = some id ↔ ∃ before r after, regions = before ++ r :: after ∧ r.id = id ∧
    k ∈ r.chunks ∧ ∀ r' ∈ after, k ∉ r'.chunks
  free : ∀ k, index.get? k = none ↔ ∀ r ∈ regions, k ∉ r.chunks
  size : index.size = (gather Region.chunks ∅ regions).size

namespace RegionIndex

variable {regions : List (Region F)} {k : Key} {id : RegionId}

theorem get?_eq_some_iff : (ofRegions regions).get? k = some id ↔ ∃ before r after,
    regions = before ++ r :: after ∧ r.id = id ∧ k ∈ r.chunks ∧ ∀ r' ∈ after, k ∉ r'.chunks := by
  rw [get?_ofRegions, Option.map_eq_some_iff]
  constructor
  · rintro ⟨r, hfind, rfl⟩
    -- what the search passes over lies behind the region that it finds
    obtain ⟨hk, passed, rest, hsplit, hpassed⟩ := List.find?_eq_some_iff_append.mp hfind
    refine ⟨rest.reverse, r, passed.reverse, ?_, rfl, by simpa using hk, fun r' hr' => ?_⟩
    · rw [← List.reverse_reverse regions, hsplit]
      simp
    · simpa using hpassed r' (List.mem_reverse.mp hr')
  · rintro ⟨before, r, after, rfl, rfl, hk, hafter⟩
    refine ⟨r, List.find?_eq_some_iff_append.mpr ⟨by simpa using hk, after.reverse, before.reverse, by simp, ?_⟩, rfl⟩
    exact fun r' hr' => by simpa using hafter r' (List.mem_reverse.mp hr')

theorem get?_eq_none_iff : (ofRegions regions).get? k = none ↔ ∀ r ∈ regions, k ∉ r.chunks := by
  rw [get?_ofRegions, Option.map_eq_none_iff, List.find?_eq_none]
  simp

/-- An index has one entry for each key of its regions. -/
theorem size_ofRegions (regions : List (Region F)) :
    (ofRegions regions).size = (gather Region.chunks ∅ regions).size := by
  have hkeys : (ofRegions regions).owners.keys.Nodup :=
    Std.ExtTreeMap.distinct_keys.imp fun hne heq => hne (Std.LawfulEqCmp.compare_eq_iff_eq.mpr heq)
  have hmem : ∀ k, k ∈ (ofRegions regions).owners.keys ↔ k ∈ (gather Region.chunks ∅ regions).toList := by
    intro k
    have hnone : k ∉ (ofRegions regions).owners ↔ (ofRegions regions).get? k = none := by
      rw [Std.ExtTreeMap.mem_iff_isSome_getElem?, get?, Bool.not_eq_true, Option.isSome_eq_false_iff,
        Option.isNone_iff_eq_none]
    rw [Std.ExtTreeMap.mem_keys, KeySet.mem_toList, mem_gather, ← not_iff_not, hnone, get?_eq_none_iff]
    simp
  have hperm := (List.perm_ext_iff_of_nodup hkeys (KeySet.nodup_toList _)).mpr hmem
  rw [size, ← Std.ExtTreeMap.length_keys, hperm.length_eq, Std.ExtTreeSet.length_toList]

theorem ofRegions_follows (regions : List (Region F)) : (ofRegions regions).Follows regions :=
  ⟨fun _ _ => get?_eq_some_iff, fun _ => get?_eq_none_iff, size_ofRegions regions⟩

end RegionIndex

/-! ## Destinations -/

/-- A batch that an index has distributed entities into: the regions are those given, in their order, each with the
entities behind its own that the index sends to its place; the others, which the index sends nowhere or past the last
region, are outside; both in their order, and with nothing lost or made twice. -/
structure Distributed (index : RegionIndex) (cellOf : E → Cell) (regions : List (Region E)) (entities : List E)
    (batch : Batch E) : Prop where
  size : batch.regions.size = regions.length
  inside : ∀ (p : Nat) (r : Region E), regions[p]? = some r → batch.regions[p]? = some (r.addAll
    (entities.filter fun e => (index.get? (cellOf e).key).map RegionId.place = some p))
  outside : batch.unassigned.toList =
    entities.filter fun e => (index.get? (cellOf e).key).all (regions.length ≤ ·.place)
  whole : batch.contents.Perm (regions.flatMap (·.entities.toList) ++ entities)

namespace Batch

variable {index : RegionIndex} {cellOf : E → Cell} {n p : Nat} {e : E}

theorem destination_eq_some_iff (hp : p < n) :
    destination index cellOf n e = some p ↔ (index.get? (cellOf e).key).map RegionId.place = some p := by
  rw [destination, Option.filter_eq_some_iff]
  exact and_iff_left (decide_eq_true hp)

theorem destination_eq_none_iff :
    destination index cellOf n e = none ↔ (index.get? (cellOf e).key).all (n ≤ ·.place) = true := by
  unfold destination
  cases index.get? (cellOf e).key with
  | none => simp
  | some id => simp

/-- Entities are distributed whatever the index says, and whatever the regions hold. -/
theorem distributed_of_index (index : RegionIndex) (cellOf : E → Cell) (regions : List (Region E))
    (entities : List E) : Distributed index cellOf regions entities (assign regions index cellOf entities) := by
  have hplaced := foldl_place index cellOf ⟨regions.toArray, #[]⟩ entities
  refine ⟨by simpa [assign] using hplaced.1, fun p r hr => ?_, ?_, ?_⟩
  · have hp := (List.getElem?_eq_some_iff.mp hr).1
    rw [assign_regions, hr, Option.map_some]
    simp only [destination_eq_some_iff hp]
  · rw [assign_unassigned]
    simp only [destination_eq_none_iff, Bool.decide_eq_true]
  · have hstart : (⟨regions.toArray, #[]⟩ : Batch E).contents = regions.flatMap (·.entities.toList) := by
      simp [contents]
    rw [← hstart]
    exact foldl_place_contents index cellOf ⟨regions.toArray, #[]⟩ entities

end Batch

/-- Regions of any kind, an index of any others, and any entities: the index follows the regions that it was made from,
and the entities are distributed by it. -/
theorem assign_distributed (source : List (Region F)) (regions : List (Region E)) (cellOf : E → Cell)
    (entities : List E) :
    let index := RegionIndex.ofRegions source
    index.Follows source ∧ Distributed index cellOf regions entities (Batch.assign regions index cellOf entities) :=
  ⟨RegionIndex.ofRegions_follows source, Batch.distributed_of_index _ cellOf regions entities⟩

end GridTick
