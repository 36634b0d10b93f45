import GridTick.Proofs.Region.Ownership
import GridTick.Proofs.Tick.RegionGeometry

/-!
# GridTick.Proofs.Tick.Placement — where the entities of a batch go

The index of a batch is asked for the key of an entity's cell, and its answer is read as a place in the list of
regions.  While there are not more regions than numbers, that place is the region whose chunks have the key, so an
entity is with the agents that see its cell, also where windows have been joined or run over the edge of the grid.

* `goesTo_eq_some_iff`: the place that an entity goes to, by the chunks of the regions.
* `Batch.bucket`: what a region, or the outside, is given.
* `Placement`, `buildBatch_placement`: the buckets of a batch.
-/

namespace GridTick

variable {E : Type} {cellOf : E → Cell} {tracked : List E} {agents : List Cell} {view : UInt32}

/-! ## The place of an entity -/

theorem buildBatch_size_le (cellOf : E → Cell) (tracked : List E) (agents : List Cell) (view : UInt32) :
    (buildBatch cellOf tracked agents view).regions.size ≤ agents.length := by
  obtain ⟨groups, hg, hregions⟩ := buildBatch_grouped cellOf tracked agents view
  have hle : (buildBatch cellOf tracked agents view).regions.size ≤ groups.length := by
    rw [← Array.getElem?_eq_none_iff, hregions]
    simp
  exact hle.trans (by simpa using hg.seeds.length_le)

theorem buildBatch_numbered (hlen : agents.length < UInt32.size) {i : Nat} {r : Region E}
    (hr : (buildBatch cellOf tracked agents view).regions[i]? = some r) : r.id.place = i := by
  obtain ⟨_, -, _, -, -, hid, -⟩ := exists_group_of_region hr
  have hi := (Array.getElem?_eq_some_iff.mp hr).1
  have hsize := buildBatch_size_le cellOf tracked agents view
  rw [hid]
  exact UInt32.toNat_ofNat_of_lt (by omega)

theorem goesTo_eq_some_iff (tracked : List E) (hlen : agents.length < UInt32.size) {e : E} {i : Nat} :
    goesTo cellOf agents view e = some i ↔
      ∃ r, (buildBatch cellOf tracked agents view).regions[i]? = some r ∧ (cellOf e).key ∈ r.chunks := by
  let regions : List (Region E) := regionsOf ((List.finRange agents.length).map (sight agents view))
  -- entities change neither the keys of a region nor its number, so the regions before the placing tell the owners
  have hfilled : ∀ i : Nat, (buildBatch cellOf tracked agents view).regions[i]? = regions[i]?.map fun r =>
      r.addAll (tracked.filter fun e => goesTo cellOf agents view e = some i) := fun i => by
    rw [buildBatch_eq, Batch.assign_regions]
    rfl
  have hbatch : ∀ {i : Nat} {r}, regions[i]? = some r → (buildBatch cellOf tracked agents view).regions[i]? =
      some (r.addAll (tracked.filter fun e => goesTo cellOf agents view e = some i)) := fun {i r} hr => by
    rw [hfilled, hr, Option.map_some]
  have hinPlace : InPlace regions := by
    constructor
    · intro i j r r' k hr hr' hk hk'
      by_contra hij
      exact buildBatch_disjoint (hbatch hr) (hbatch hr') hij hk hk'
    · intro i r hr
      have hid := buildBatch_numbered hlen (hbatch hr)
      exact hid
  have hgoes : goesTo cellOf agents view e = Batch.destination (.ofRegions regions) cellOf regions.length e := rfl
  rw [hgoes, hinPlace.destination_eq_some_iff]
  constructor
  · rintro ⟨r, hr, hk⟩
    exact ⟨_, hbatch hr, hk⟩
  · rintro ⟨r, hr, hk⟩
    rw [hfilled, Option.map_eq_some_iff] at hr
    obtain ⟨r', hr', rfl⟩ := hr
    exact ⟨r', hr', hk⟩

theorem exists_region_of_agent (cellOf : E → Cell) (tracked : List E) (view : UInt32) {a : Cell} (ha : a ∈ agents) :
    ∃ p : Fin (buildBatch cellOf tracked agents view).regions.size, ∀ k : Key,
      a.ringDistance k.cell ≤ min view.toNat 2147483647 →
        k ∈ (buildBatch cellOf tracked agents view).regions[p].chunks := by
  obtain ⟨groups, hg, hregions⟩ := buildBatch_grouped cellOf tracked agents view
  obtain ⟨j, rfl⟩ := List.get_of_mem ha
  obtain ⟨g, hgm, hj⟩ := hg.exists_group (List.mem_finRange j)
  obtain ⟨i, hi⟩ := List.getElem?_of_mem hgm
  have hr := hregions i
  rw [hi, Option.map_some] at hr
  obtain ⟨hlt, hget⟩ := Array.getElem?_eq_some_iff.mp hr
  refine ⟨⟨i, hlt⟩, fun k hk => ?_⟩
  have hkey : k ∈ g.keys (sight agents view) := Group.mem_keys.mpr ⟨j, hj, mem_sight.mpr hk⟩
  rw [Fin.getElem_fin, hget]
  exact hkey

/-! ## Buckets -/

/-- The entities of the region at a place, or those outside all regions. -/
def Batch.bucket (b : Batch E) : Option (Fin b.regions.size) → List E
  | some p => b.regions[p].entities.toList
  | none => b.unassigned.toList

/-- Every entity has one home, and a bucket lists the tracked entities that have their home there, in order.  The home
is the region that has the key of the entity's cell, with all agents that see that cell; it is outside all regions if
no agent sees it. -/
structure Placement (cellOf : E → Cell) (tracked : List E) (agents : List Cell) (view : UInt32) (batch : Batch E)
    (home : E → Option (Fin batch.regions.size)) : Prop where
  buckets : ∀ b, batch.bucket b = tracked.filter fun e => home e = b
  once : ∀ e ∈ tracked, ∃! b, e ∈ batch.bucket b
  whole : batch.contents.Perm tracked
  inside : ∀ e p, home e = some p ↔ (cellOf e).key ∈ batch.regions[p].chunks
  seen : ∀ e, (∃ p, home e = some p) ↔ ∃ a ∈ agents, a.ringDistance (cellOf e) ≤ min view.toNat 2147483647
  shared : ∀ e, ∀ a ∈ agents, a.ringDistance (cellOf e) ≤ min view.toNat 2147483647 →
    ∀ p, home e = some p ↔ a.key ∈ batch.regions[p].chunks
  inhabited : ∀ p : Fin batch.regions.size, batch.regions[p].isEmpty = false

/-- The home of an entity, as a place among the regions of its batch. -/
def homeOf (cellOf : E → Cell) (tracked : List E) (agents : List Cell) (view : UInt32) (e : E) :
    Option (Fin (buildBatch cellOf tracked agents view).regions.size) :=
  (goesTo cellOf agents view e).bind fun i =>
    if h : i < (buildBatch cellOf tracked agents view).regions.size then some ⟨i, h⟩ else none

section Home

variable (hlen : agents.length < UInt32.size)
include hlen

theorem homeOf_map_val (tracked : List E) (e : E) :
    (homeOf cellOf tracked agents view e).map Fin.val = goesTo cellOf agents view e := by
  unfold homeOf
  cases hgoes : goesTo cellOf agents view e with
  | none => rfl
  | some i =>
    obtain ⟨r, hr, -⟩ := (goesTo_eq_some_iff tracked hlen).mp hgoes
    have hi := (Array.getElem?_eq_some_iff.mp hr).1
    simp [hi]

theorem homeOf_eq_iff {e : E} {b : Option (Fin (buildBatch cellOf tracked agents view).regions.size)} :
    homeOf cellOf tracked agents view e = b ↔ goesTo cellOf agents view e = b.map Fin.val := by
  rw [← homeOf_map_val hlen tracked]
  exact (Option.map_injective Fin.val_injective).eq_iff.symm

theorem homeOf_eq_some_iff {e : E} {p : Fin (buildBatch cellOf tracked agents view).regions.size} :
    homeOf cellOf tracked agents view e = some p ↔
      (cellOf e).key ∈ (buildBatch cellOf tracked agents view).regions[p].chunks := by
  rw [homeOf_eq_iff hlen, Option.map_some, goesTo_eq_some_iff tracked hlen]
  constructor
  · rintro ⟨r, hr, hk⟩
    rw [Array.getElem?_eq_getElem p.isLt] at hr
    obtain rfl := Option.some.inj hr
    exact hk
  · exact fun hk => ⟨_, Array.getElem?_eq_getElem p.isLt, hk⟩

theorem bucket_eq_filter (b : Option (Fin (buildBatch cellOf tracked agents view).regions.size)) :
    (buildBatch cellOf tracked agents view).bucket b =
      tracked.filter fun e => homeOf cellOf tracked agents view e = b := by
  simp only [homeOf_eq_iff hlen]
  cases b with
  | none => exact buildBatch_unassigned
  | some p => exact buildBatch_entities (Array.getElem?_eq_getElem p.isLt)

end Home

/-- The buckets of the batch for fewer than `2^32` agents. -/
theorem buildBatch_placement (cellOf : E → Cell) (tracked : List E) (agents : List Cell) (view : UInt32)
    (hlen : agents.length < UInt32.size) :
    ∃ home, Placement cellOf tracked agents view (buildBatch cellOf tracked agents view) home := by
  refine ⟨homeOf cellOf tracked agents view, bucket_eq_filter hlen, fun e he => ?_, buildBatch_contents,
    fun e p => homeOf_eq_some_iff hlen, fun e => ?_, fun e a ha hsee p => ?_, fun p => ?_⟩
  · refine ⟨homeOf cellOf tracked agents view e, ?_, fun b hb => ?_⟩
    · dsimp only
      rw [bucket_eq_filter hlen]
      exact List.mem_filter.mpr ⟨he, by simp⟩
    · dsimp only at hb
      rw [bucket_eq_filter hlen] at hb
      exact (of_decide_eq_true (List.mem_filter.mp hb).2).symm
  · constructor
    · rintro ⟨p, hp⟩
      obtain ⟨a, ha, hk⟩ := buildBatch_seen (Array.getElem?_eq_getElem p.isLt) ((homeOf_eq_some_iff hlen).mp hp)
      rw [Window.mem_keys, Key.cell_key] at hk
      exact ⟨a, ha, hk⟩
    · rintro ⟨a, ha, hsee⟩
      obtain ⟨p, hp⟩ := exists_region_of_agent cellOf tracked view ha
      exact ⟨p, (homeOf_eq_some_iff hlen).mpr (hp _ (by rwa [Key.cell_key]))⟩
  · obtain ⟨q, hq⟩ := exists_region_of_agent cellOf tracked view ha
    have hkey := hq (cellOf e).key (by rwa [Key.cell_key])
    have hown := hq a.key (by rw [Key.cell_key, Cell.ringDistance_self]; exact Nat.zero_le _)
    rw [homeOf_eq_some_iff hlen]
    -- both keys are in the region `q`, and in no other
    by_cases hpq : p = q
    · subst hpq
      exact iff_of_true hkey hown
    · have hval : q.val ≠ p.val := fun h => hpq (Fin.ext h.symm)
      have hapart := fun k => buildBatch_disjoint (k := k) (Array.getElem?_eq_getElem q.isLt)
        (Array.getElem?_eq_getElem p.isLt) hval
      exact iff_of_false (hapart _ hkey) (hapart _ hown)
  · exact buildBatch_nonempty (Array.getElem?_eq_getElem p.isLt)

/-- The windows of the first two agents meet over the edge of the grid, and the third agent is far off. -/
theorem buildBatch_placement_over_edge :
    let agents : List Cell := [⟨2147483647, 0⟩, ⟨-2147483648, 2⟩, ⟨100, 100⟩]
    let tracked : List Cell := [⟨-2147483647, 3⟩, ⟨0, 0⟩, ⟨2147483646, 0⟩, ⟨99, 101⟩]
    agents.length < UInt32.size ∧ ∃ home, Placement id tracked agents 1 (buildBatch id tracked agents 1) home ∧
      (∃ p, home ⟨-2147483647, 3⟩ = some p) ∧ ¬ ∃ p, home ⟨0, 0⟩ = some p := by
  intro agents tracked
  have hlen : agents.length < UInt32.size := by decide
  obtain ⟨home, h⟩ := buildBatch_placement id tracked agents 1 hlen
  exact ⟨hlen, home, h, (h.seen _).mpr (by decide), fun hp => absurd ((h.seen _).mp hp) (by decide)⟩

end GridTick
