import Mathlib.Combinatorics.SimpleGraph.Connectivity.Connected
import Mathlib.Data.List.FinRange
import Mathlib.Order.Bounds.Basic
import GridTick.Region.Cluster

/-!
# GridTick.Proofs.Region.Components — joined sets are connected components

A family of key sets `f : ι → KeySet` is a graph: two members are `Linked` when they share a key, and `Joined` when a
chain of links leads from one to the other.

* `absorb_map`, `grow_map`: what a pass and what all passes of a seed take and leave.  The seed only takes members
  joined to it, and what it leaves at the end has no key of the grown set.
* `Grouped`: members split into groups, each joined through its seed, no two groups linked.
* `components_map`: the components of a family are the unions of the groups of a `Grouped` list.
* `Grouped.keys_disjoint`: two groups share no key.
* `regionsOf_map`: the regions of a family, by its groups.
-/

namespace GridTick

variable {ι : Type}

/-! ## Links and chains -/

section Links

/-- Two members of a family share a key. -/
def Linked (f : ι → KeySet) (i j : ι) : Prop := ∃ k, k ∈ f i ∧ k ∈ f j

/-- A chain of links leads from one member to another. -/
def Joined (f : ι → KeySet) : ι → ι → Prop := Relation.ReflTransGen (Linked f)

variable {f : ι → KeySet} {i j l : ι}

theorem Linked.symm (h : Linked f i j) : Linked f j i := by
  obtain ⟨k, hi, hj⟩ := h
  exact ⟨k, hj, hi⟩

theorem Joined.trans (h : Joined f i j) (h' : Joined f j l) : Joined f i l :=
  Relation.ReflTransGen.trans h h'

theorem Joined.symm (h : Joined f i j) : Joined f j i := by
  induction h with
  | refl => exact .refl
  | tail _ hlink ih => exact Relation.ReflTransGen.head hlink.symm ih

/-- A set of members that no link leaves is left by no chain. -/
theorem Joined.mem_of_closed {s : ι → Prop} (hs : ∀ i j, s i → Linked f i j → s j) (h : Joined f i j) (hi : s i) :
    s j := by
  induction h with
  | refl => exact hi
  | tail _ hlink ih => exact hs _ _ ih hlink

/-- A seed with the sets of some members. -/
def gather (f : ι → KeySet) (seed : KeySet) (taken : List ι) : KeySet :=
  taken.foldl (fun s i => s.union (f i)) seed

theorem mem_gather {seed : KeySet} {taken : List ι} {k : Key} :
    k ∈ gather f seed taken ↔ k ∈ seed ∨ ∃ i ∈ taken, k ∈ f i := by
  induction taken generalizing seed with
  | nil => simp [gather]
  | cons i rest ih =>
    have h : gather f seed (i :: rest) = gather f (seed.union (f i)) rest := rfl
    rw [h, ih, KeySet.mem_union, List.exists_mem_cons_iff, or_assoc]

theorem gather_append (seed : KeySet) (a b : List ι) :
    gather f seed (a ++ b) = gather f (gather f seed a) b := by
  simp [gather, List.foldl_append]

/-- Every key of the set lies in a member joined to `b`. -/
def ReachedFrom (f : ι → KeySet) (b : ι) (s : KeySet) : Prop := ∀ k ∈ s, ∃ i, Joined f b i ∧ k ∈ f i

theorem reachedFrom_self (b : ι) : ReachedFrom f b (f b) :=
  fun _ hk => ⟨b, .refl, hk⟩

theorem ReachedFrom.joined {b : ι} {s : KeySet} (hs : ReachedFrom f b s) (hm : s.meets (f i)) : Joined f b i := by
  obtain ⟨k, hk, hki⟩ := KeySet.meets_iff.mp hm
  obtain ⟨j, hbj, hkj⟩ := hs k hk
  exact hbj.tail ⟨k, hkj, hki⟩

theorem ReachedFrom.gather {b : ι} {s : KeySet} {taken : List ι} (hs : ReachedFrom f b s)
    (ht : ∀ i ∈ taken, Joined f b i) : ReachedFrom f b (gather f s taken) := by
  intro k hk
  rcases mem_gather.mp hk with hk | ⟨i, hi, hk⟩
  · exact hs k hk
  · exact ⟨i, ht i hi, hk⟩

end Links

/-! ## One pass, and all passes -/

section Passes

variable (f : ι → KeySet)

/-- A pass takes some members, keeps the others in order, and takes only what is joined to where the seed comes
from. -/
theorem absorb_map (seed : KeySet) (members : List ι) :
    ∃ taken left, (taken ++ left).Perm members ∧ left.Sublist members ∧
      absorb seed (members.map f) = (gather f seed taken, left.map f) ∧
      ∀ b, ReachedFrom f b seed → ∀ i ∈ taken, Joined f b i := by
  induction members generalizing seed with
  | nil => exact ⟨[], [], .refl _, .refl _, rfl, by simp⟩
  | cons i rest ih =>
    by_cases hm : seed.meets (f i)
    · obtain ⟨taken, left, hperm, hsub, heq, hjoin⟩ := ih (seed.union (f i))
      refine ⟨i :: taken, left, hperm.cons i, hsub.cons i, ?_, ?_⟩
      · rw [List.map_cons, absorb, if_pos hm, heq]
        rfl
      · intro b hb
        have hi : Joined f b i := hb.joined hm
        have hb' : ReachedFrom f b (gather f seed [i]) := hb.gather (by simpa using hi)
        intro j hj
        rcases List.mem_cons.mp hj with rfl | hj
        · exact hi
        · exact hjoin b hb' j hj
    · obtain ⟨taken, left, hperm, hsub, heq, hjoin⟩ := ih seed
      refine ⟨taken, i :: left, ?_, hsub.cons_cons i, ?_, hjoin⟩
      · exact List.perm_middle.trans (hperm.cons i)
      · rw [List.map_cons, absorb, if_neg hm, heq]
        rfl

/-- A pass that shortens nothing leaves the seed as it was, and no set meets it. -/
theorem absorb_idle {seed : KeySet} {sets : List KeySet} (h : sets.length ≤ (absorb seed sets).2.length) :
    absorb seed sets = (seed, sets) ∧ ∀ s ∈ sets, ¬ seed.meets s := by
  induction sets with
  | nil => exact ⟨rfl, by simp⟩
  | cons s rest ih =>
    by_cases hm : seed.meets s
    · have hle := absorb_length_le (seed.union s) rest
      rw [absorb, if_pos hm, List.length_cons] at h
      omega
    · rw [absorb, if_neg hm] at h ⊢
      obtain ⟨heq, hrest⟩ := ih (by simpa using h)
      rw [heq]
      refine ⟨rfl, ?_⟩
      intro t ht
      rcases List.mem_cons.mp ht with rfl | ht
      · exact hm
      · exact hrest t ht

/-- All passes of a seed: like one pass, and in the end nothing that is left meets what was grown. -/
theorem grow_map (seed : KeySet) (members : List ι) :
    ∃ taken left, (taken ++ left).Perm members ∧ left.Sublist members ∧
      grow seed (members.map f) = (gather f seed taken, left.map f) ∧
      (∀ b, ReachedFrom f b seed → ∀ i ∈ taken, Joined f b i) ∧
      ∀ i ∈ left, ¬ (gather f seed taken).meets (f i) := by
  induction hn : members.length using Nat.strong_induction_on generalizing seed members with
  | _ n ih =>
    subst hn
    obtain ⟨taken, left, hperm, hsub, heq, hjoin⟩ := absorb_map f seed members
    by_cases hlt : left.length < members.length
    · obtain ⟨taken', left', hperm', hsub', heq', hjoin', hdone⟩ :=
        ih left.length hlt (gather f seed taken) left rfl
      refine ⟨taken ++ taken', left', ?_, hsub'.trans hsub, ?_, ?_, ?_⟩
      · rw [List.append_assoc]
        exact (hperm'.append_left taken).trans hperm
      · rw [grow, heq, gather_append]
        simpa [hlt] using heq'
      · intro b hb i hi
        have ht := hjoin b hb
        rcases List.mem_append.mp hi with hi | hi
        · exact ht i hi
        · exact hjoin' b (hb.gather ht) i hi
      · rw [gather_append]
        exact hdone
    · have hle : (members.map f).length ≤ (absorb seed (members.map f)).2.length := by
        rw [heq, List.length_map, List.length_map]
        omega
      obtain ⟨hidle, hapart⟩ := absorb_idle hle
      refine ⟨[], members, .refl _, .refl _, ?_, by simp, ?_⟩
      · rw [grow, hidle]
        simp [gather]
      · intro i hi
        exact hapart (f i) (List.mem_map_of_mem hi)

end Passes

/-! ## Groups -/

/-- Members taken together: the one that came first, and those that were joined to it. -/
structure Group (ι : Type) where
  seed : ι
  others : List ι

namespace Group

/-- Everybody in the group. -/
def members (g : Group ι) : List ι := g.seed :: g.others

/-- All keys of the group. -/
def keys (f : ι → KeySet) (g : Group ι) : KeySet := gather f (f g.seed) g.others

theorem mem_keys {f : ι → KeySet} {g : Group ι} {k : Key} : k ∈ g.keys f ↔ ∃ i ∈ g.members, k ∈ f i := by
  rw [keys, mem_gather, members, List.exists_mem_cons_iff]

end Group

/-- Members of a family split into groups: each is joined through its seed, which stands first, and no link leads
from one to another. -/
structure Grouped (f : ι → KeySet) (members : List ι) (groups : List (Group ι)) : Prop where
  perm : (groups.flatMap Group.members).Perm members
  seeds : (groups.map Group.seed).Sublist members
  first : ∀ g ∈ groups, ∀ i ∈ g.others, [g.seed, i].Sublist members
  joined : ∀ g ∈ groups, ∀ i ∈ g.members, Joined f g.seed i
  apart : groups.Pairwise fun g h => ∀ i ∈ g.members, ∀ j ∈ h.members, ¬ Linked f i j

/-- The components of a family are the unions of its groups. -/
theorem components_map (f : ι → KeySet) (members : List ι) :
    ∃ groups, Grouped f members groups ∧ components (members.map f) = groups.map (Group.keys f) := by
  induction hn : members.length using Nat.strong_induction_on generalizing members with
  | _ n ih =>
    subst hn
    cases members with
    | nil => exact ⟨[], ⟨.refl _, .refl _, by simp, by simp, .nil⟩, by rw [List.map_nil, components]; rfl⟩
    | cons b rest =>
      obtain ⟨taken, left, hperm, hsub, heq, hjoin, hdone⟩ := grow_map f (f b) rest
      have hlt : left.length < (b :: rest).length := Nat.lt_succ_of_le hsub.length_le
      obtain ⟨groups, hg, hcomp⟩ := ih left.length hlt left rfl
      have hleft : ∀ g ∈ groups, ∀ i ∈ g.members, i ∈ left := fun g hgm i hi =>
        hg.perm.subset (List.mem_flatMap.mpr ⟨g, hgm, hi⟩)
      refine ⟨⟨b, taken⟩ :: groups, ⟨?_, ?_, ?_, ?_, ?_⟩, ?_⟩
      · rw [List.flatMap_cons]
        exact ((hg.perm.append_left taken).trans hperm).cons b
      · exact (hg.seeds.trans hsub).cons_cons b
      · intro g hgm i hi
        rcases List.mem_cons.mp hgm with rfl | hgm
        · exact (List.singleton_sublist.mpr (hperm.subset (List.mem_append_left _ hi))).cons_cons b
        · exact ((hg.first g hgm i hi).trans hsub).cons b
      · intro g hgm i hi
        rcases List.mem_cons.mp hgm with rfl | hgm
        · rcases List.mem_cons.mp hi with rfl | hi
          · exact .refl
          · exact hjoin b (reachedFrom_self b) i hi
        · exact hg.joined g hgm i hi
      · refine List.pairwise_cons.mpr ⟨?_, hg.apart⟩
        intro h hh i hi j hj hlink
        obtain ⟨k, hki, hkj⟩ := hlink
        have hk : k ∈ Group.keys f ⟨b, taken⟩ := Group.mem_keys.mpr ⟨i, hi, hki⟩
        exact hdone j (hleft h hh j hj) (KeySet.meets_iff.mpr ⟨k, hk, hkj⟩)
      · rw [List.map_cons, components, heq, hcomp]
        rfl

section Groups

variable {f : ι → KeySet} {members : List ι} {groups : List (Group ι)}

theorem Grouped.exists_group (hg : Grouped f members groups) {i : ι} (hi : i ∈ members) :
    ∃ g ∈ groups, i ∈ g.members :=
  List.mem_flatMap.mp (hg.perm.symm.subset hi)

/-- Two groups are one, or no link leads from the first to the second. -/
theorem Grouped.eq_or_apart (hg : Grouped f members groups) {g h : Group ι} (hgm : g ∈ groups) (hhm : h ∈ groups) :
    g = h ∨ ∀ i ∈ g.members, ∀ j ∈ h.members, ¬ Linked f i j := by
  by_cases heq : g = h
  · exact .inl heq
  · have hsymm : Std.Symm fun g h : Group ι => ∀ i ∈ g.members, ∀ j ∈ h.members, ¬ Linked f i j :=
      ⟨fun g h hap i hi j hj hlink => hap j hj i hi hlink.symm⟩
    exact .inr (hg.apart.forall hgm hhm heq)

/-- Where every member is grouped, no chain leaves a group. -/
theorem Grouped.mem_of_joined (hg : Grouped f members groups) (hall : ∀ i, i ∈ members) {g : Group ι}
    (hgm : g ∈ groups) {i j : ι} (hi : i ∈ g.members) (hij : Joined f i j) : j ∈ g.members := by
  refine hij.mem_of_closed (s := (· ∈ g.members)) ?_ hi
  intro a b ha hab
  obtain ⟨h, hhm, hb⟩ := hg.exists_group (hall b)
  rcases hg.eq_or_apart hgm hhm with rfl | hap
  · exact hb
  · exact absurd hab (hap a ha b hb)

/-- A group is all that is joined to its seed. -/
theorem Grouped.mem_iff_joined (hg : Grouped f members groups) (hall : ∀ i, i ∈ members) {g : Group ι}
    (hgm : g ∈ groups) {i : ι} : i ∈ g.members ↔ Joined f g.seed i :=
  ⟨hg.joined g hgm i, hg.mem_of_joined hall hgm (List.mem_cons_self ..)⟩

/-- Two groups share no key. -/
theorem Grouped.keys_disjoint (hg : Grouped f members groups) {p q : Fin groups.length} (hpq : p ≠ q) {k : Key}
    (hk : k ∈ (groups.get p).keys f) : k ∉ (groups.get q).keys f := by
  intro hk'
  obtain ⟨i, hi, hki⟩ := Group.mem_keys.mp hk
  obtain ⟨j, hj, hkj⟩ := Group.mem_keys.mp hk'
  have hlink : Linked f i j := ⟨k, hki, hkj⟩
  rcases lt_or_gt_of_ne hpq with hlt | hlt
  · exact List.pairwise_iff_get.mp hg.apart p q hlt i hi j hj hlink
  · exact List.pairwise_iff_get.mp hg.apart q p hlt j hj i hi hlink.symm

/-- Every region is the union of a group. -/
theorem regionsOf_map {E : Type} (f : ι → KeySet) (members : List ι) :
    ∃ groups, Grouped f members groups ∧
      (regionsOf (members.map f) : List (Region E)) =
        groups.zipIdx.map fun (g, p) => .bare (.ofPlace p) (g.keys f) := by
  obtain ⟨groups, hg, hcomp⟩ := components_map f members
  refine ⟨groups, hg, ?_⟩
  rw [regionsOf, hcomp, List.zipIdx_map, List.map_map]
  rfl

end Groups

end GridTick
