import GridTick.Proofs.Grid.Ring
import GridTick.Proofs.Tick.Batch

/-!
# GridTick.Proofs.Tick.RegionGeometry — where the regions of a batch lie

Windows overlap exactly when their agents are at most twice the view distance apart, measured on the closed grid.  So
the agents of a region are those that a chain of such steps joins, and its chunks are those within view of one of them.

* `linked_iff`: two windows overlap, by the distance of their agents.
* `Chained`, `joined_iff_chained`: chains of agents.
* `RegionGeometry`, `buildBatch_geometry`: the regions of a batch.
-/

namespace GridTick

variable {E : Type} {agents : List Cell} {view : UInt32}

/-! ## Overlapping windows -/

theorem mem_sight {i : Fin agents.length} {k : Key} :
    k ∈ sight agents view i ↔ (agents.get i).ringDistance k.cell ≤ min view.toNat 2147483647 := by
  rw [sight, Window.mem_toSet, Window.mem_keys]
  rfl

theorem own_key_mem (i : Fin agents.length) : (agents.get i).key ∈ sight agents view i := by
  rw [mem_sight, Key.cell_key, Cell.ringDistance_self]
  exact Nat.zero_le _

/-- Cutting the radius down loses no overlap: no two cells are further apart than half the circle. -/
theorem linked_iff {i j : Fin agents.length} :
    Linked (sight agents view) i j ↔ (agents.get i).ringDistance (agents.get j) ≤ 2 * view.toNat := by
  have hmeet := Cell.ringDistance_meet (a := agents.get i) (b := agents.get j) (s := min view.toNat 2147483647)
  have hhalf := Cell.ringDistance_le_half (a := agents.get i) (b := agents.get j)
  have hlink : Linked (sight agents view) i j ↔
      (agents.get i).ringDistance (agents.get j) ≤ 2 * min view.toNat 2147483647 := by
    rw [← hmeet]
    constructor
    · rintro ⟨k, hi, hj⟩
      exact ⟨k.cell, mem_sight.mp hi, mem_sight.mp hj⟩
    · rintro ⟨c, hi, hj⟩
      refine ⟨c.key, mem_sight.mpr ?_, mem_sight.mpr ?_⟩
      · rwa [Key.cell_key]
      · rwa [Key.cell_key]
  rw [hlink]
  omega

/-! ## Chains of agents -/

/-- A chain of agents leads from one to another, in steps of at most twice the view distance. -/
def Chained (agents : List Cell) (view : UInt32) : Fin agents.length → Fin agents.length → Prop :=
  Relation.ReflTransGen fun i j => (agents.get i).ringDistance (agents.get j) ≤ 2 * view.toNat

theorem joined_iff_chained {i j : Fin agents.length} : Joined (sight agents view) i j ↔ Chained agents view i j := by
  have hstep : Linked (sight agents view) = fun i j => (agents.get i).ringDistance (agents.get j) ≤ 2 * view.toNat := by
    ext i j
    exact linked_iff
  rw [Joined, Chained, hstep]

/-! ## Regions -/

/-- Every agent has a region, which holds its cell; agents share one exactly when a chain joins them; and a region is
made of what its agents see. -/
structure RegionGeometry (agents : List Cell) (view : UInt32) (regions : Array (Region E))
    (owner : Fin agents.length → Fin regions.size) : Prop where
  inhabited : Function.Surjective owner
  holds : ∀ i p, (agents.get i).key ∈ regions[p].chunks ↔ owner i = p
  together : ∀ i j, owner i = owner j ↔ Chained agents view i j
  chunks : ∀ p k, k ∈ regions[p].chunks ↔
    ∃ i, owner i = p ∧ (agents.get i).ringDistance k.cell ≤ min view.toNat 2147483647

section Groups

variable {groups : List (Group (Fin agents.length))}

/-- A group has the cell of an agent among its keys exactly when it has the agent. -/
theorem Grouped.own_key_iff (hg : Grouped (sight agents view) (List.finRange agents.length) groups)
    {g : Group (Fin agents.length)} (hgm : g ∈ groups) {i : Fin agents.length} :
    (agents.get i).key ∈ g.keys (sight agents view) ↔ i ∈ g.members := by
  rw [Group.mem_keys]
  constructor
  · rintro ⟨j, hj, hkey⟩
    exact hg.mem_of_joined List.mem_finRange hgm hj (.single ⟨_, hkey, own_key_mem i⟩)
  · exact fun hi => ⟨i, hi, own_key_mem i⟩

/-- Agents that are each in one of two groups are chained exactly when these are one group. -/
theorem Grouped.eq_iff_chained (hg : Grouped (sight agents view) (List.finRange agents.length) groups)
    {p q : Fin groups.length} {i j : Fin agents.length} (hi : i ∈ (groups.get p).members)
    (hj : j ∈ (groups.get q).members) : p = q ↔ Chained agents view i j := by
  rw [← joined_iff_chained]
  constructor
  · rintro rfl
    have hseed := hg.joined _ (groups.get_mem p)
    exact (hseed i hi).symm.trans (hseed j hj)
  · intro hij
    by_contra hpq
    have hj' := hg.mem_of_joined List.mem_finRange (groups.get_mem p) hi hij
    exact hg.keys_disjoint hpq ((hg.own_key_iff (groups.get_mem p)).mpr hj')
      ((hg.own_key_iff (groups.get_mem q)).mpr hj)

end Groups

/-- The regions of a batch, whatever agents there are and however far they see. -/
theorem buildBatch_geometry (cellOf : E → Cell) (tracked : List E) (agents : List Cell) (view : UInt32) :
    ∃ owner, RegionGeometry agents view (buildBatch cellOf tracked agents view).regions owner := by
  obtain ⟨groups, hg, hregions⟩ := buildBatch_grouped cellOf tracked agents view
  generalize (buildBatch cellOf tracked agents view).regions = regions at hregions
  have hsize : regions.size = groups.length := by
    have hle : ∀ p, regions.size ≤ p ↔ groups.length ≤ p := fun p => by
      rw [← Array.getElem?_eq_none_iff, hregions, Option.map_eq_none_iff, List.getElem?_eq_none_iff]
    exact le_antisymm ((hle _).mpr le_rfl) ((hle _).mp le_rfl)
  have hkeys : ∀ p : Fin regions.size, regions[p].chunks = (groups.get (p.cast hsize)).keys (sight agents view) := by
    intro p
    have hp := hregions p
    rw [Array.getElem?_eq_getElem p.isLt, List.getElem?_eq_getElem (hsize ▸ p.isLt)] at hp
    exact congrArg Region.chunks (Option.some.inj hp)
  have howner : ∀ i, ∃ p : Fin regions.size, i ∈ (groups.get (p.cast hsize)).members := by
    intro i
    obtain ⟨g, hgm, hi⟩ := hg.exists_group (List.mem_finRange i)
    obtain ⟨q, rfl⟩ := List.get_of_mem hgm
    exact ⟨q.cast hsize.symm, hi⟩
  choose owner howner using howner
  have hmem : ∀ i p, i ∈ (groups.get (p.cast hsize)).members ↔ owner i = p := by
    intro i p
    constructor
    · intro hi
      have heq := (hg.eq_iff_chained (howner i) hi).mpr .refl
      exact Fin.cast_injective hsize heq
    · rintro rfl
      exact howner i
  refine ⟨owner, fun p => ?_, fun i p => ?_, fun i j => ?_, fun p k => ?_⟩
  · exact ⟨(groups.get (p.cast hsize)).seed, (hmem _ p).mp (List.mem_cons_self ..)⟩
  · rw [hkeys, hg.own_key_iff (groups.get_mem _), hmem]
  · rw [← hg.eq_iff_chained (howner i) (howner j)]
    exact (Fin.cast_injective hsize).eq_iff.symm
  · rw [hkeys, Group.mem_keys]
    exact exists_congr fun i => and_congr (hmem i p) mem_sight

end GridTick
