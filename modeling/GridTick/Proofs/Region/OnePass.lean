import Mathlib.Data.List.TakeWhile
import GridTick.Proofs.Region.Connectivity

/-!
# GridTick.Proofs.Region.OnePass — regions from sets that come one at a time

Regions can also be found in one pass: sets come one at a time into a list of groups that share no key, and each joins
all groups that it meets into one, at the place of the earliest of them.  Seeds that grow over the sets behind them
give the same groups in the same order, although halfway the two have joined different sets.

* `enter`, `onePass`: a set that comes into a list of groups, and all of them.
* `Grouped.alone`, `Grouped.takeIn`: a member that comes into groups, and belongs to none or to some of them.
* `onePass_map`: what comes out of one pass are groups of linked members.
* `Grouped.keys_unique`: such groups are told by the sets alone, with their order.
* `onePass_eq_regions`: one pass gives the regions.
-/

namespace GridTick

/-- A set comes into a list of groups: those that it meets become one group with it, at the place of the earliest of
them; if it meets none it is a group of its own, the last. -/
def enter (groups : List KeySet) (set : KeySet) : List KeySet :=
  let before := groups.takeWhile fun g => !g.meets set
  let behind := groups.dropWhile fun g => !g.meets set
  before ++ gather id set (behind.filter fun g => g.meets set) :: behind.filter fun g => !g.meets set

/-- The groups of sets that come one after another. -/
def onePass (sets : List KeySet) : List KeySet := sets.foldl enter []

variable {ι E : Type}

/-- In a list without repeats, what comes before something comes before all that follows it. -/
theorem pair_sublist_trans {l : List ι} (hnodup : l.Nodup) {a b c : ι} (hab : [a, b].Sublist l)
    (hbc : [b, c].Sublist l) : [a, c].Sublist l := by
  induction l with
  | nil => cases hab
  | cons x rest ih =>
    obtain ⟨hx, hrest⟩ := List.nodup_cons.mp hnodup
    rw [List.cons_sublist_cons'] at hab hbc ⊢
    rcases hbc with hbc | ⟨rfl, -⟩
    · rcases hab with hab | ⟨rfl, -⟩
      · exact .inl (ih hrest hab hbc)
      · exact .inr ⟨rfl, (List.sublist_cons_self b [c]).trans hbc⟩
    · -- `b` is not in the rest, so nothing comes before it
      rcases hab with hab | ⟨-, hb⟩
      · exact absurd (hab.subset (by simp)) hx
      · exact absurd (List.singleton_sublist.mp hb) hx

/-! ## One more member -/

/-- A group takes in all members of other groups, and one more. -/
def Group.takeIn (g : Group ι) (others : List (Group ι)) (i : ι) : Group ι :=
  ⟨g.seed, g.others ++ others.flatMap Group.members ++ [i]⟩

theorem Group.mem_takeIn {g : Group ι} {others : List (Group ι)} {i j : ι} :
    j ∈ (g.takeIn others i).members ↔ j ∈ g.members ∨ (∃ h ∈ others, j ∈ h.members) ∨ j = i := by
  simp [takeIn, members, or_assoc]

theorem Group.keys_takeIn {f : ι → KeySet} {g : Group ι} {others : List (Group ι)} {i : ι} :
    (g.takeIn others i).keys f = gather id (f i) ((g :: others).map (Group.keys f)) := by
  apply Std.ExtTreeSet.ext_mem
  intro k
  have hany : (∃ s ∈ (g :: others).map (Group.keys f), k ∈ id s) ↔ ∃ h ∈ g :: others, ∃ j ∈ h.members, k ∈ f j := by
    simp [mem_keys]
  rw [mem_keys, mem_gather, hany, List.exists_mem_cons_iff]
  constructor
  · rintro ⟨j, hj, hk⟩
    rcases mem_takeIn.mp hj with hj | ⟨h, hh, hj⟩ | rfl
    · exact .inr (.inl ⟨j, hj, hk⟩)
    · exact .inr (.inr ⟨h, hh, j, hj, hk⟩)
    · exact .inl hk
  · rintro (hk | ⟨j, hj, hk⟩ | ⟨h, hh, j, hj, hk⟩)
    · exact ⟨i, mem_takeIn.mpr (.inr (.inr rfl)), hk⟩
    · exact ⟨j, mem_takeIn.mpr (.inl hj), hk⟩
    · exact ⟨j, mem_takeIn.mpr (.inr (.inl ⟨h, hh, hj⟩)), hk⟩

/-- The sets of a group meet that of a member just if one of them is linked with it. -/
theorem Group.keys_meets_iff {f : ι → KeySet} {g : Group ι} {i : ι} :
    (g.keys f).meets (f i) = true ↔ ∃ j ∈ g.members, Linked f j i := by
  rw [KeySet.meets_iff]
  constructor
  · rintro ⟨k, hk, hki⟩
    obtain ⟨j, hj, hkj⟩ := mem_keys.mp hk
    exact ⟨j, hj, k, hkj, hki⟩
  · rintro ⟨j, hj, k, hkj, hki⟩
    exact ⟨k, mem_keys.mpr ⟨j, hj, hkj⟩, hki⟩

namespace Grouped

variable {f : ι → KeySet} {members : List ι} {groups : List (Group ι)} {i : ι}

/-- A member that is linked with none is a group of its own. -/
theorem alone (hg : Grouped f members groups) (hnone : ∀ g ∈ groups, (g.keys f).meets (f i) = false) :
    Grouped f (members ++ [i]) (groups ++ [⟨i, []⟩]) := by
  refine ⟨?perm, ?seeds, ?first, ?joined, ?apart⟩
  case perm =>
    rw [List.flatMap_append]
    exact hg.perm.append_right [i]
  case seeds =>
    rw [List.map_append]
    exact hg.seeds.append_right [i]
  case first =>
    intro g hgm j hj
    rcases List.mem_append.mp hgm with hgm | hgm
    · exact (hg.first g hgm j hj).trans (List.sublist_append_left ..)
    · obtain rfl := List.mem_singleton.mp hgm
      cases hj
  case joined =>
    intro g hgm j hj
    rcases List.mem_append.mp hgm with hgm | hgm
    · exact hg.joined g hgm j hj
    · obtain rfl := List.mem_singleton.mp hgm
      obtain rfl := List.mem_singleton.mp hj
      exact .refl
  case apart =>
    refine List.pairwise_append.mpr ⟨hg.apart, List.pairwise_singleton .., ?_⟩
    intro g hgm h hh j hj l hl hlink
    obtain rfl := List.mem_singleton.mp hh
    obtain rfl := List.mem_singleton.mp hl
    exact absurd (Group.keys_meets_iff.mpr ⟨j, hj, hlink⟩) (Bool.eq_false_iff.mp (hnone g hgm))

/-- What met a member is joined with it. -/
theorem joined_of_meets (hg : Grouped f members groups) {g : Group ι} (hgm : g ∈ groups)
    (hmeets : (g.keys f).meets (f i) = true) {j : ι} (hj : j ∈ g.members) : Joined f j i := by
  obtain ⟨l, hl, hlink⟩ := Group.keys_meets_iff.mp hmeets
  exact ((hg.joined g hgm j hj).symm.trans (hg.joined g hgm l hl)).tail hlink

/-- The seed of a group comes before all members of the groups behind it. -/
theorem seed_before {before rest : List (Group ι)} {g h : Group ι} (hg : Grouped f members (before ++ g :: rest))
    (hnodup : members.Nodup) (hh : h ∈ rest) {j : ι} (hj : j ∈ h.members) : [g.seed, j].Sublist members := by
  have hseeds : [g.seed, h.seed].Sublist members := by
    refine List.Sublist.trans ?_ hg.seeds
    rw [List.map_append, List.map_cons]
    have hlast : [h.seed].Sublist (rest.map Group.seed) := List.singleton_sublist.mpr (List.mem_map_of_mem hh)
    exact (hlast.cons_cons g.seed).trans (List.sublist_append_right ..)
  rcases List.mem_cons.mp hj with rfl | hj
  · exact hseeds
  · exact pair_sublist_trans hnodup hseeds (hg.first h (by simp [hh]) j hj)

/-- A group that does not meet a member has no link with what takes it in. -/
theorem not_linked_takeIn (hg : Grouped f members groups) {g h : Group ι} {met : List (Group ι)}
    (hmet : ∀ h' ∈ g :: met, h' ∈ groups ∧ (h'.keys f).meets (f i) = true) (hhm : h ∈ groups)
    (hnot : (h.keys f).meets (f i) = false) : ∀ j ∈ h.members, ∀ l ∈ (g.takeIn met i).members, ¬ Linked f j l := by
  intro j hj l hl hlink
  have hne : ∀ h' ∈ g :: met, l ∉ h'.members := by
    intro h' hh' hl'
    obtain ⟨hm, hmeets⟩ := hmet h' hh'
    rcases hg.eq_or_apart hhm hm with rfl | hap
    · rw [hnot] at hmeets
      cases hmeets
    · exact hap j hj l hl' hlink
  rcases Group.mem_takeIn.mp hl with hl | ⟨h', hh', hl⟩ | rfl
  · exact hne g (List.mem_cons_self ..) hl
  · exact hne h' (List.mem_cons_of_mem _ hh') hl
  · exact Bool.eq_false_iff.mp hnot (Group.keys_meets_iff.mpr ⟨j, hj, hlink⟩)

/-- A member that is linked with some groups joins them at the place of the first; a group before that place has no
link with it. -/
theorem takeIn {before rest : List (Group ι)} {g : Group ι} (hg : Grouped f members (before ++ g :: rest))
    (hnodup : members.Nodup) (hbefore : ∀ h ∈ before, (h.keys f).meets (f i) = false)
    (hmeets : (g.keys f).meets (f i) = true) :
    Grouped f (members ++ [i]) (before ++ g.takeIn (rest.filter fun h => (h.keys f).meets (f i)) i ::
      rest.filter fun h => !(h.keys f).meets (f i)) := by
  set met := rest.filter fun h => (h.keys f).meets (f i) with hmetdef
  set others := rest.filter fun h => !(h.keys f).meets (f i) with hothersdef
  have hmet : ∀ h ∈ g :: met, h ∈ before ++ g :: rest ∧ (h.keys f).meets (f i) = true := by
    intro h hh
    rcases List.mem_cons.mp hh with rfl | hh
    · exact ⟨by simp, hmeets⟩
    · have hh := List.mem_filter.mp hh
      exact ⟨by simp [hh.1], hh.2⟩
  have hothers : ∀ h ∈ before ++ others, h ∈ before ++ g :: rest ∧ (h.keys f).meets (f i) = false := by
    intro h hh
    rcases List.mem_append.mp hh with hh | hh
    · exact ⟨List.mem_append_left _ hh, hbefore h hh⟩
    · have hh := List.mem_filter.mp hh
      exact ⟨by simp [hh.1], by simpa using hh.2⟩
  have hsplit : ∀ h ∈ before ++ g.takeIn met i :: others, h ∈ before ++ others ∨ h = g.takeIn met i := by
    intro h hh
    exact (List.mem_cons.mp (List.perm_middle.mem_iff.mp hh)).symm
  have hapart : ∀ h ∈ before ++ others, ∀ j ∈ h.members, ∀ l ∈ (g.takeIn met i).members, ¬ Linked f j l :=
    fun h hh => hg.not_linked_takeIn hmet (hothers h hh).1 (hothers h hh).2
  have hgm := (hmet g (List.mem_cons_self ..)).1
  refine ⟨?perm, ?seeds, ?first, ?joined, ?apart⟩
  case perm =>
    have hrest : ((met ++ others).flatMap Group.members).Perm (rest.flatMap Group.members) :=
      (List.filter_append_perm _ rest).flatMap_right _
    have hold : (before.flatMap Group.members ++ (g.members ++ (met ++ others).flatMap Group.members)).Perm members := by
      refine ((hrest.append_left _).append_left _).trans ?_
      simpa using hg.perm
    refine List.Perm.trans ?_ (hold.append_right [i])
    simp only [List.flatMap_append, List.flatMap_cons, Group.takeIn, Group.members, List.append_assoc,
      List.cons_append, List.nil_append]
    refine List.Perm.append_left _ (List.Perm.cons _ (List.Perm.append_left _ (List.Perm.append_left _ ?_)))
    exact (List.perm_append_singleton i _).symm
  case seeds =>
    refine List.Sublist.trans ?_ (hg.seeds.trans (List.sublist_append_left ..))
    rw [List.map_append, List.map_append, List.map_cons, List.map_cons]
    exact (List.Sublist.refl _).append ((List.filter_sublist.map _).cons_cons _)
  case first =>
    intro h hh j hj
    rcases hsplit h hh with hh | rfl
    · exact (hg.first h (hothers h hh).1 j hj).trans (List.sublist_append_left ..)
    · rcases List.mem_append.mp hj with hj | hj
      · refine List.Sublist.trans ?_ (List.sublist_append_left ..)
        rcases List.mem_append.mp hj with hj | hj
        · exact hg.first g hgm j hj
        · obtain ⟨h', hh', hj⟩ := List.mem_flatMap.mp hj
          exact hg.seed_before hnodup (List.mem_filter.mp hh').1 hj
      · obtain rfl := List.mem_singleton.mp hj
        have hseed : g.seed ∈ members := hg.seeds.subset (List.mem_map_of_mem hgm)
        exact (List.singleton_sublist.mpr hseed).append (List.Sublist.refl [j])
  case joined =>
    intro h hh j hj
    rcases hsplit h hh with hh | rfl
    · exact hg.joined h (hothers h hh).1 j hj
    · have hseed : Joined f g.seed i := hg.joined_of_meets hgm hmeets (List.mem_cons_self ..)
      rcases Group.mem_takeIn.mp hj with hj | ⟨h', hh', hj⟩ | rfl
      · exact hg.joined g hgm j hj
      · obtain ⟨hhm, hmeets'⟩ := hmet h' (List.mem_cons_of_mem _ hh')
        exact hseed.trans (hg.joined_of_meets hhm hmeets' hj).symm
      · exact hseed
  case apart =>
    obtain ⟨hb, hrest, hcross⟩ := List.pairwise_append.mp hg.apart
    have hlast : (g.takeIn met i :: others).Pairwise fun g h => ∀ j ∈ g.members, ∀ l ∈ h.members, ¬ Linked f j l := by
      refine List.pairwise_cons.mpr ⟨?_, (List.pairwise_cons.mp hrest).2.filter _⟩
      intro h hh j hj l hl hlink
      exact hapart h (List.mem_append_right _ hh) l hl j hj hlink.symm
    refine List.pairwise_append.mpr ⟨hb, hlast, ?_⟩
    intro h hh h' hh'
    rcases List.mem_cons.mp hh' with rfl | hh'
    · exact hapart h (List.mem_append_left _ hh)
    · exact hcross h hh h' (List.mem_cons_of_mem _ (List.mem_filter.mp hh').1)

end Grouped

/-! ## All members -/

/-- Where groups stand for their keys, a set that comes in leaves groups. -/
theorem Grouped.exists_enter {f : ι → KeySet} {members : List ι} {groups : List (Group ι)}
    (hg : Grouped f members groups) (hnodup : members.Nodup) (i : ι) :
    ∃ groups', Grouped f (members ++ [i]) groups' ∧
      enter (groups.map (Group.keys f)) (f i) = groups'.map (Group.keys f) := by
  rw [enter, List.takeWhile_map, List.dropWhile_map]
  set apart : Group ι → Bool := (fun set => !set.meets (f i)) ∘ Group.keys f
  have hwhole : groups.takeWhile apart ++ groups.dropWhile apart = groups := List.takeWhile_append_dropWhile
  have hbefore : ∀ g ∈ groups.takeWhile apart, (g.keys f).meets (f i) = false := fun g hgm => by
    simpa [apart] using List.mem_takeWhile_imp hgm
  cases hbehind : groups.dropWhile apart with
  | nil =>
    rw [hbehind, List.append_nil] at hwhole
    rw [hwhole] at hbefore ⊢
    refine ⟨groups ++ [⟨i, []⟩], hg.alone hbefore, ?_⟩
    rw [List.map_append]
    rfl
  | cons g rest =>
    have hmeets : (g.keys f).meets (f i) = true := by
      have hhead := List.head_dropWhile_not apart (l := groups) (by simp [hbehind])
      simpa [hbehind, apart] using hhead
    rw [hbehind] at hwhole
    rw [← hwhole] at hg
    refine ⟨_, hg.takeIn hnodup hbefore hmeets, ?_⟩
    rw [List.map_append, List.map_cons, List.map_cons, Group.keys_takeIn, List.map_cons,
      List.filter_cons_of_pos (by exact hmeets),
      List.filter_cons_of_neg (by simp [hmeets]), List.filter_map, List.filter_map]
    rfl

/-- What comes out of one pass over a family are the unions of groups. -/
theorem onePass_map (f : ι → KeySet) (members : List ι) (hnodup : members.Nodup) :
    ∃ groups, Grouped f members groups ∧ onePass (members.map f) = groups.map (Group.keys f) := by
  induction members using List.reverseRecOn with
  | nil => exact ⟨[], ⟨.refl _, .refl _, by simp, by simp, .nil⟩, rfl⟩
  | append_singleton rest i ih =>
    have hrest := (List.nodup_append.mp hnodup).1
    obtain ⟨groups, hg, heq⟩ := ih hrest
    obtain ⟨groups', hg', henter⟩ := hg.exists_enter hrest i
    refine ⟨groups', hg', ?_⟩
    rw [onePass, List.map_append, List.foldl_append, ← onePass, heq]
    exact henter

section Unique

variable {sets : List KeySet} {groups groups' : List (Group (Fin sets.length))}

/-- The seeds are the least members of components. -/
theorem Grouped.mem_seeds_iff (hg : Grouped sets.get (List.finRange sets.length) groups) {i : Fin sets.length} :
    i ∈ groups.map Group.seed ↔ IsLeast ((overlapGraph sets).connectedComponentMk i).supp i := by
  constructor
  · intro hi
    obtain ⟨g, hgm, rfl⟩ := List.mem_map.mp hi
    exact hg.seed_isLeast hgm
  · intro hi
    obtain ⟨g, hgm, hig⟩ := hg.exists_group (List.mem_finRange i)
    have hcomponent : (overlapGraph sets).connectedComponentMk i = (overlapGraph sets).connectedComponentMk g.seed :=
      (hg.mem_supp hgm).mpr hig
    rw [hcomponent] at hi
    exact hi.unique (hg.seed_isLeast hgm) ▸ List.mem_map_of_mem hgm

/-- All groupings of the same sets have the same seeds, in the same order. -/
theorem Grouped.seeds_unique (hg : Grouped sets.get (List.finRange sets.length) groups)
    (hg' : Grouped sets.get (List.finRange sets.length) groups') :
    groups.map Group.seed = groups'.map Group.seed := by
  have hsorted := List.sortedLT_finRange sets.length
  refine (hsorted.pairwise.sublist hg.seeds).sortedLT.eq_of_mem_iff (hsorted.pairwise.sublist hg'.seeds).sortedLT ?_
  intro i
  rw [hg.mem_seeds_iff, hg'.mem_seeds_iff]

/-- All groupings of the same sets have the same keys, in the same order. -/
theorem Grouped.keys_unique (hg : Grouped sets.get (List.finRange sets.length) groups)
    (hg' : Grouped sets.get (List.finRange sets.length) groups') :
    groups.map (Group.keys sets.get) = groups'.map (Group.keys sets.get) := by
  have hseeds := hg.seeds_unique hg'
  apply List.ext_getElem
  · simpa using congrArg List.length hseeds
  intro p hp hp'
  rw [List.length_map] at hp hp'
  have hseed : groups[p].seed = groups'[p].seed := by
    have h := List.getElem_of_eq hseeds (by simpa using hp)
    simpa using h
  rw [List.getElem_map, List.getElem_map]
  apply Std.ExtTreeSet.ext_mem
  intro k
  rw [Group.mem_keys, Group.mem_keys]
  refine exists_congr fun i => and_congr_left fun _ => ?_
  rw [hg.mem_iff_joined List.mem_finRange (List.getElem_mem hp), hseed,
    hg'.mem_iff_joined List.mem_finRange (List.getElem_mem hp')]

end Unique

theorem regionsOf_chunks (sets : List KeySet) :
    (regionsOf sets : List (Region E)).map Region.chunks = components sets := by
  rw [regionsOf, List.map_map]
  exact List.zipIdx_map_fst 0 (components sets)

/-- One pass gives the regions, in their order, for every list of sets; its groups share no key. -/
theorem onePass_eq_regions (sets : List KeySet) :
    onePass sets = (regionsOf sets : List (Region E)).map Region.chunks ∧
      (onePass sets).Pairwise fun a b => a.meets b = false := by
  obtain ⟨groups, hg, hpass⟩ := onePass_map sets.get (List.finRange sets.length) (List.nodup_finRange _)
  obtain ⟨groups', hg', hcomponents⟩ := components_map sets.get (List.finRange sets.length)
  rw [List.map_get_finRange] at hpass hcomponents
  constructor
  · rw [regionsOf_chunks, hpass, hcomponents, hg.keys_unique hg']
  · rw [hpass, List.pairwise_map, List.pairwise_iff_get]
    intro p q hpq
    refine Bool.eq_false_iff.mpr fun hmeets => ?_
    obtain ⟨k, hp, hq⟩ := KeySet.meets_iff.mp hmeets
    exact hg.keys_disjoint hpq.ne hp hq

-- two windows and an empty set, then a window between the two that joins them
example : (onePass [Window.toSet ⟨⟨0, 0⟩, 2⟩, Window.toSet ⟨⟨8, 0⟩, 2⟩, ∅, Window.toSet ⟨⟨4, 0⟩, 2⟩]).map (·.size) =
    [65, 0] := by decide +kernel

end GridTick
