import GridTick.Proofs.Grid.Ring
import GridTick.Proofs.Region.Assignment
import GridTick.Proofs.Region.Connectivity
import GridTick.Tick.Tick

/-!
# GridTick.Proofs.Tick.Batch — the batch of a tick

The regions of a batch are groups of windows that overlap, each with the tracked entities that the index sends to it.

* `buildBatch_grouped`: every region of a batch, by its place.
* `buildBatch_nonempty`, `buildBatch_disjoint`, `buildBatch_seen`: its chunks.
* `buildBatch_contents`, `buildBatch_unassigned`, `buildBatch_entities`: its entities.
-/

namespace GridTick

variable {E : Type}

/-- What each of the agents sees. -/
def sight (agents : List Cell) (view : UInt32) (i : Fin agents.length) : KeySet := (Window.mk (agents.get i) view).toSet

theorem map_sight (agents : List Cell) (view : UInt32) : (List.finRange agents.length).map (sight agents view) =
    agents.map fun a => (Window.mk a view).toSet := by
  have hget := List.map_get_finRange agents
  calc (List.finRange agents.length).map (sight agents view)
      = ((List.finRange agents.length).map agents.get).map fun a => (Window.mk a view).toSet := by
        rw [List.map_map]
        rfl
    _ = agents.map fun a => (Window.mk a view).toSet := by rw [hget]

theorem Window.keys_ne_nil (w : Window) : w.keys ≠ [] := by
  have hsteps : steps w.reach ≠ [] := by simp [steps]
  obtain ⟨d, hd⟩ := List.exists_mem_of_ne_nil _ hsteps
  exact List.ne_nil_of_mem (List.mem_flatMap.mpr ⟨d, hd, List.mem_map_of_mem hd⟩)

/-- Place of the region that an entity is put into, in the batch for these agents. -/
def goesTo (cellOf : E → Cell) (agents : List Cell) (view : UInt32) (e : E) : Option Nat :=
  let regions : List (Region E) := regionsOf ((List.finRange agents.length).map (sight agents view))
  Batch.destination (RegionIndex.ofRegions regions) cellOf regions.length e

section Build

variable {cellOf : E → Cell} {tracked : List E} {agents : List Cell} {view : UInt32}

theorem buildBatch_eq : buildBatch cellOf tracked agents view =
    let regions : List (Region E) := regionsOf ((List.finRange agents.length).map (sight agents view))
    Batch.assign regions (.ofRegions regions) cellOf tracked := by
  rw [map_sight]
  rfl

/-- Each region of a batch is a group of windows, with the entities that go there. -/
theorem buildBatch_grouped (cellOf : E → Cell) (tracked : List E) (agents : List Cell) (view : UInt32) :
    ∃ groups, Grouped (sight agents view) (List.finRange agents.length) groups ∧
      ∀ i : Nat, (buildBatch cellOf tracked agents view).regions[i]? = groups[i]?.map fun g =>
        ⟨.ofPlace i, g.keys (sight agents view),
          (tracked.filter fun e => goesTo cellOf agents view e = some i).toArray⟩ := by
  obtain ⟨groups, hg, hregions⟩ := regionsOf_map (E := E) (sight agents view) (List.finRange agents.length)
  refine ⟨groups, hg, fun i => ?_⟩
  have hi : (regionsOf ((List.finRange agents.length).map (sight agents view)) : List (Region E))[i]? =
      groups[i]?.map fun g => .bare (.ofPlace i) (g.keys (sight agents view)) := by
    rw [hregions, List.getElem?_map, List.getElem?_zipIdx, Option.map_map]
    simp [Function.comp_def]
  rw [buildBatch_eq, Batch.assign_regions, hi, Option.map_map]
  simp only [Function.comp_def, Region.bare_addAll]
  rfl

theorem exists_group_of_region {i : Nat} {r : Region E}
    (hr : (buildBatch cellOf tracked agents view).regions[i]? = some r) :
    ∃ groups, Grouped (sight agents view) (List.finRange agents.length) groups ∧
      ∃ g, groups[i]? = some g ∧ r.chunks = g.keys (sight agents view) ∧ r.id = .ofPlace i ∧
        r.entities.toList = tracked.filter fun e => goesTo cellOf agents view e = some i := by
  obtain ⟨groups, hg, hregions⟩ := buildBatch_grouped cellOf tracked agents view
  rw [hregions i, Option.map_eq_some_iff] at hr
  obtain ⟨g, hgi, rfl⟩ := hr
  exact ⟨groups, hg, g, hgi, rfl, rfl, rfl⟩

/-! ## Chunks -/

/-- Every chunk of a region is seen by an agent. -/
theorem buildBatch_seen {i : Nat} {r : Region E} (hr : (buildBatch cellOf tracked agents view).regions[i]? = some r)
    {k : Key} (hk : k ∈ r.chunks) : ∃ a ∈ agents, k ∈ (Window.mk a view).keys := by
  obtain ⟨groups, -, g, -, hchunks, -⟩ := exists_group_of_region hr
  rw [hchunks] at hk
  obtain ⟨j, -, hj⟩ := Group.mem_keys.mp hk
  exact ⟨agents.get j, agents.get_mem j, Window.mem_toSet.mp hj⟩

theorem buildBatch_nonempty {i : Nat} {r : Region E}
    (hr : (buildBatch cellOf tracked agents view).regions[i]? = some r) : r.isEmpty = false := by
  obtain ⟨groups, -, g, -, hchunks, -⟩ := exists_group_of_region hr
  obtain ⟨k, hk⟩ := List.exists_mem_of_ne_nil _ (Window.keys_ne_nil ⟨agents.get g.seed, view⟩)
  have hmem : k ∈ r.chunks := by
    rw [hchunks, Group.mem_keys]
    exact ⟨g.seed, List.mem_cons_self .., Window.mem_toSet.mpr hk⟩
  rw [Region.isEmpty, ← Bool.not_eq_true, Std.ExtTreeSet.isEmpty_iff]
  rintro h
  rw [h] at hmem
  exact Std.ExtTreeSet.not_mem_empty hmem

/-- No region of a batch is passed over by the dispatch. -/
theorem buildBatch_places : ((jobs (buildBatch cellOf tracked agents view).regions.toList).map Prod.snd) =
    List.range (buildBatch cellOf tracked agents view).regions.size := by
  have hall : jobs (buildBatch cellOf tracked agents view).regions.toList =
      (buildBatch cellOf tracked agents view).regions.toList.zipIdx := by
    refine List.filter_eq_self.mpr fun ⟨r, i⟩ hr => ?_
    rw [List.mem_zipIdx_iff_getElem?, Array.getElem?_toList] at hr
    simp [buildBatch_nonempty hr]
  rw [hall, List.zipIdx_map_snd, Array.length_toList, List.range_eq_range']

/-- No chunk is in two regions. -/
theorem buildBatch_disjoint {i j : Nat} {r r' : Region E}
    (hr : (buildBatch cellOf tracked agents view).regions[i]? = some r)
    (hr' : (buildBatch cellOf tracked agents view).regions[j]? = some r') (hij : i ≠ j) {k : Key}
    (hk : k ∈ r.chunks) : k ∉ r'.chunks := by
  obtain ⟨groups, hg, hregions⟩ := buildBatch_grouped cellOf tracked agents view
  rw [hregions, Option.map_eq_some_iff] at hr hr'
  obtain ⟨g, hgi, rfl⟩ := hr
  obtain ⟨g', hgj, rfl⟩ := hr'
  obtain ⟨hi, rfl⟩ := List.getElem?_eq_some_iff.mp hgi
  obtain ⟨hj, rfl⟩ := List.getElem?_eq_some_iff.mp hgj
  have hne : (⟨i, hi⟩ : Fin groups.length) ≠ ⟨j, hj⟩ := fun h => hij (Fin.mk.inj h)
  exact hg.keys_disjoint hne hk

/-! ## Entities -/

theorem buildBatch_contents : (buildBatch cellOf tracked agents view).contents.Perm tracked := by
  refine Batch.assign_contents fun r hr => ?_
  obtain ⟨⟨chunks, p⟩, -, rfl⟩ := List.mem_map.mp hr
  rfl

theorem buildBatch_unassigned : (buildBatch cellOf tracked agents view).unassigned.toList =
    tracked.filter fun e => goesTo cellOf agents view e = none := by
  rw [buildBatch_eq]
  exact Batch.assign_unassigned

theorem buildBatch_entities {i : Nat} {r : Region E}
    (hr : (buildBatch cellOf tracked agents view).regions[i]? = some r) :
    r.entities.toList = tracked.filter fun e => goesTo cellOf agents view e = some i := by
  obtain ⟨_, -, _, -, -, -, hentities⟩ := exists_group_of_region hr
  exact hentities

end Build

end GridTick
