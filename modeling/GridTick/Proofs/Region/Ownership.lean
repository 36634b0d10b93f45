import Mathlib.Data.List.Induction
import GridTick.Proofs.Region.Assignment
import GridTick.Region.Index

/-!
# GridTick.Proofs.Region.Ownership — which region owns a key

Regions claim their keys one after another, so a key belongs to the last region that has it.  Where regions share no
key and are numbered by their places, the number that the index gives is the place of the one region that has the key.

* `RegionIndex.get?_claim`, `RegionIndex.get?_ofRegions`: the owner of a key.
* `InPlace.destination_eq_some_iff`: where an entity goes.
-/

namespace GridTick

variable {E : Type}

namespace RegionIndex

theorem getElem?_foldl_insert (owners : Std.ExtTreeMap Key RegionId) (keys : List Key) (id : RegionId) (k : Key) :
    (keys.foldl (fun owners k => owners.insert k id) owners)[k]? = if k ∈ keys then some id else owners[k]? := by
  induction keys generalizing owners with
  | nil => simp
  | cons k' rest ih =>
    rw [List.foldl_cons, ih, Std.ExtTreeMap.getElem?_insert]
    by_cases hrest : k ∈ rest
    · simp [hrest]
    · by_cases hk : k' = k
      · simp [hk]
      · simp [hrest, hk, Ne.symm hk, Std.LawfulEqCmp.compare_eq_iff_eq]

/-- After a claim the region owns its keys, and all others have the owners that they had. -/
theorem get?_claim (index : RegionIndex) (r : Region E) (k : Key) :
    (index.claim r).get? k = if k ∈ r.chunks then some r.id else index.get? k := by
  rw [get?, claim, Std.ExtTreeSet.foldl_eq_foldl_toList, getElem?_foldl_insert]
  simp only [KeySet.mem_toList]
  rfl

/-- The last region of the list that has a key owns it. -/
theorem get?_ofRegions (regions : List (Region E)) (k : Key) :
    (ofRegions regions).get? k = (regions.reverse.find? fun r => k ∈ r.chunks).map Region.id := by
  induction regions using List.reverseRecOn with
  | nil => simp [ofRegions, get?, empty]
  | append_singleton regions r ih =>
    have hstep : ofRegions (regions ++ [r]) = (ofRegions regions).claim r := by simp [ofRegions]
    rw [hstep, get?_claim, ih, List.reverse_append, List.reverse_singleton, List.singleton_append, List.find?_cons]
    by_cases hk : k ∈ r.chunks
    · simp [hk]
    · simp [hk]

end RegionIndex

/-! ## Regions that share no key -/

/-- The regions of a list share no key, and each is numbered by its place. -/
structure InPlace (regions : List (Region E)) : Prop where
  apart : ∀ {i j : Nat} {r r' : Region E} {k : Key}, regions[i]? = some r → regions[j]? = some r' → k ∈ r.chunks →
    k ∈ r'.chunks → i = j
  numbered : ∀ {i : Nat} {r : Region E}, regions[i]? = some r → r.id.place = i

section InPlace

variable {regions : List (Region E)} {k : Key}

/-- The owner of a key is the region that has it. -/
theorem InPlace.get?_eq_some_iff (h : InPlace regions) {id : RegionId} :
    (RegionIndex.ofRegions regions).get? k = some id ↔ ∃ r, regions[id.place]? = some r ∧ r.id = id ∧ k ∈ r.chunks := by
  rw [RegionIndex.get?_ofRegions, Option.map_eq_some_iff]
  constructor
  · rintro ⟨r, hfind, rfl⟩
    have hk : k ∈ r.chunks := by simpa using List.find?_some hfind
    have hmem : r ∈ regions := List.mem_reverse.mp (List.mem_of_find?_eq_some hfind)
    obtain ⟨i, hi⟩ := List.getElem?_of_mem hmem
    exact ⟨r, by rw [h.numbered hi, hi], rfl, hk⟩
  · rintro ⟨r, hr, rfl, hk⟩
    -- the search finds some region with the key, and there is only this one
    cases hfind : regions.reverse.find? fun r => k ∈ r.chunks with
    | none =>
      have hnone := List.find?_eq_none.mp hfind r (List.mem_reverse.mpr (List.mem_of_getElem? hr))
      simp [hk] at hnone
    | some r' =>
      have hk' : k ∈ r'.chunks := by simpa using List.find?_some hfind
      obtain ⟨j, hj⟩ := List.getElem?_of_mem (List.mem_reverse.mp (List.mem_of_find?_eq_some hfind))
      rw [← h.apart hr hj hk hk', hr] at hj
      exact ⟨r', rfl, congrArg Region.id (Option.some.inj hj).symm⟩

theorem InPlace.destination_eq_some_iff (h : InPlace regions) {cellOf : E → Cell} {e : E} {i : Nat} :
    Batch.destination (.ofRegions regions) cellOf regions.length e = some i ↔
      ∃ r, regions[i]? = some r ∧ (cellOf e).key ∈ r.chunks := by
  simp only [Batch.destination, Option.filter_eq_some_iff, Option.map_eq_some_iff, decide_eq_true_eq]
  constructor
  · rintro ⟨⟨id, hid, rfl⟩, -⟩
    obtain ⟨r, hr, -, hk⟩ := h.get?_eq_some_iff.mp hid
    exact ⟨r, hr, hk⟩
  · rintro ⟨r, hr, hk⟩
    have hplace := h.numbered hr
    refine ⟨⟨r.id, h.get?_eq_some_iff.mpr ⟨r, by rw [hplace, hr], rfl, hk⟩, hplace⟩, ?_⟩
    exact (List.getElem?_eq_some_iff.mp hr).1

end InPlace

end GridTick
