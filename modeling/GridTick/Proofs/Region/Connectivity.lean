import GridTick.Proofs.Region.Components
import GridTick.Grid.Window

/-!
# GridTick.Proofs.Region.Connectivity — regions are connected components

The places of a list of key sets form a graph, adjacent where the sets share a key.  Regions are its connected
components: one region for each, with the keys of all its sets, in the order of their least places.

* `overlapGraph`, `overlapGraph_reachable`: the graph, and its chains.
* `ByComponent`: what it means that a list of regions is made of the components.
* `regionsOf_byComponent`: it is so for `regionsOf`.
-/

namespace GridTick

variable {E : Type}

/-! ## The graph of a list of sets -/

section Graph

variable {sets : List KeySet}

/-- Places of a list of sets, adjacent where the sets share a key. -/
def overlapGraph (sets : List KeySet) : SimpleGraph (Fin sets.length) := .fromRel (Linked sets.get)

theorem joined_of_adj {i j : Fin sets.length} (h : (overlapGraph sets).Adj i j) : Joined sets.get i j := by
  obtain ⟨-, h | h⟩ := (SimpleGraph.fromRel_adj _ _ _).mp h
  · exact .single h
  · exact .single h.symm

theorem overlapGraph_reachable {i j : Fin sets.length} : (overlapGraph sets).Reachable i j ↔ Joined sets.get i j := by
  rw [SimpleGraph.reachable_iff_reflTransGen]
  constructor
  · intro h
    induction h with
    | refl => exact .refl
    | tail _ hadj ih => exact ih.trans (joined_of_adj hadj)
  · intro h
    induction h with
    | refl => exact .refl
    | @tail a b _ hlink ih =>
      by_cases hab : a = b
      · exact hab ▸ ih
      · exact ih.tail ((SimpleGraph.fromRel_adj _ _ _).mpr ⟨hab, .inl hlink⟩)

theorem mem_supp_iff_joined {i j : Fin sets.length} :
    j ∈ ((overlapGraph sets).connectedComponentMk i).supp ↔ Joined sets.get i j := by
  rw [SimpleGraph.ConnectedComponent.mem_supp_iff, SimpleGraph.ConnectedComponent.eq, overlapGraph_reachable]
  exact ⟨Joined.symm, Joined.symm⟩

end Graph

/-! ## Regions by component -/

/-- Regions that are the connected components of a list of sets: region `p` is made of the sets at the places of
`component p`, the least of which is `first p`. -/
structure ByComponent (sets : List KeySet) (regions : List (Region E))
    (component : Fin regions.length ≃ (overlapGraph sets).ConnectedComponent)
    (first : Fin regions.length → Fin sets.length) : Prop where
  least : ∀ p, IsLeast (component p).supp (first p)
  ordered : StrictMono first
  chunks : ∀ p k, k ∈ (regions.get p).chunks ↔ ∃ i ∈ (component p).supp, k ∈ sets.get i
  disjoint : ∀ p q, p ≠ q → ∀ k ∈ (regions.get p).chunks, k ∉ (regions.get q).chunks
  numbered : ∀ p, (regions.get p).id.place = p
  vacant : ∀ p, (regions.get p).entities = #[]

/-! ## Groups are components -/

section Groups

variable {sets : List KeySet} {groups : List (Group (Fin sets.length))}

theorem Grouped.mem_supp (hg : Grouped sets.get (List.finRange sets.length) groups) {g : Group (Fin sets.length)}
    (hgm : g ∈ groups) {i : Fin sets.length} :
    i ∈ ((overlapGraph sets).connectedComponentMk g.seed).supp ↔ i ∈ g.members := by
  rw [mem_supp_iff_joined, hg.mem_iff_joined List.mem_finRange hgm]

theorem Grouped.seed_isLeast (hg : Grouped sets.get (List.finRange sets.length) groups)
    {g : Group (Fin sets.length)} (hgm : g ∈ groups) :
    IsLeast ((overlapGraph sets).connectedComponentMk g.seed).supp g.seed := by
  refine ⟨rfl, fun i hi => ?_⟩
  rcases List.mem_cons.mp ((hg.mem_supp hgm).mp hi) with rfl | hi
  · exact le_rfl
  · have hpair := (List.sortedLT_finRange sets.length).pairwise.sublist (hg.first g hgm i hi)
    exact (List.rel_of_pairwise_cons hpair (List.mem_singleton_self i)).le

theorem Grouped.seed_strictMono (hg : Grouped sets.get (List.finRange sets.length) groups) :
    StrictMono fun p : Fin groups.length => (groups.get p).seed := by
  intro p q hpq
  have hpair := (List.sortedLT_finRange sets.length).pairwise.sublist hg.seeds
  exact List.pairwise_iff_get.mp (List.pairwise_map.mp hpair) p q hpq

/-- Each component is that of one group. -/
theorem Grouped.bijective (hg : Grouped sets.get (List.finRange sets.length) groups) :
    Function.Bijective fun p : Fin groups.length =>
      (overlapGraph sets).connectedComponentMk (groups.get p).seed := by
  constructor
  · intro p q hpq
    -- equal components have equal least members, and seeds increase
    have hp := hg.seed_isLeast (groups.get_mem p)
    have hq := hg.seed_isLeast (groups.get_mem q)
    have hpq' : (overlapGraph sets).connectedComponentMk (groups.get p).seed =
        (overlapGraph sets).connectedComponentMk (groups.get q).seed := hpq
    rw [hpq'] at hp
    exact hg.seed_strictMono.injective (hp.unique hq)
  · intro c
    induction c using SimpleGraph.ConnectedComponent.ind with
    | _ i =>
      obtain ⟨g, hgm, hi⟩ := hg.exists_group (List.mem_finRange i)
      obtain ⟨p, rfl⟩ := List.get_of_mem hgm
      exact ⟨p, ((hg.mem_supp hgm).mpr hi).symm⟩

end Groups

/-- The regions of fewer than `2^32` sets are the connected components of the sets. -/
theorem regionsOf_byComponent (sets : List KeySet) (hlen : sets.length < UInt32.size) :
    ∃ component first, ByComponent sets (regionsOf sets : List (Region E)) component first := by
  obtain ⟨groups, hg, hregions⟩ := regionsOf_map (E := E) sets.get (List.finRange sets.length)
  rw [List.map_get_finRange] at hregions
  have hlength : (regionsOf sets : List (Region E)).length = groups.length := by simp [hregions]
  have hget : ∀ p, (regionsOf sets : List (Region E)).get p =
      .bare (.ofPlace p) ((groups.get (p.cast hlength)).keys sets.get) := by
    intro p
    simp [hregions]
  refine ⟨(finCongr hlength).trans (.ofBijective _ hg.bijective),
    fun p => (groups.get (p.cast hlength)).seed, ?_, ?_, ?_, ?_, ?_, ?_⟩
  · exact fun p => hg.seed_isLeast (groups.get_mem _)
  · exact fun p q hpq => hg.seed_strictMono (a := p.cast hlength) (b := q.cast hlength) hpq
  · intro p k
    rw [hget]
    refine Group.mem_keys.trans (exists_congr fun i => and_congr_left fun _ => ?_)
    exact (hg.mem_supp (groups.get_mem _)).symm
  · intro p q hpq k hk
    rw [hget] at hk ⊢
    refine hg.keys_disjoint (fun h => hpq ?_) hk
    simpa using h
  · intro p
    have hp : p.val < UInt32.size := by
      have hle : groups.length ≤ sets.length := by simpa using hg.seeds.length_le
      have hlt := p.isLt.trans_eq hlength
      omega
    rw [hget]
    exact UInt32.toNat_ofNat_of_lt hp
  · intro p
    rw [hget]
    rfl

/-- The first window reaches the second only through the last, and the third set is empty. -/
theorem regionsOf_byComponent_late_link :
    let sets : List KeySet := [Window.toSet ⟨⟨0, 0⟩, 2⟩, Window.toSet ⟨⟨8, 0⟩, 2⟩, ∅, Window.toSet ⟨⟨4, 0⟩, 2⟩]
    sets.length < UInt32.size ∧
      ∃ component first, ByComponent sets (regionsOf sets : List (Region Unit)) component first :=
  ⟨by decide, regionsOf_byComponent _ (by decide)⟩

end GridTick
