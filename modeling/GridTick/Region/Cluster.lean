import GridTick.Region.Basic

/-!
# GridTick.Region.Cluster — joining overlapping key sets

`components` joins the sets of a list that overlap, directly or through others.  It takes the first set as a seed and
passes over the sets behind it, absorbing each one that meets the seed grown so far; it repeats the pass over what is
left until nothing is absorbed.  The grown seed is a component, and the rest is treated alike.

* `absorb`: one pass.
* `grow`: passes until nothing more is absorbed; each pass that goes on has fewer sets left.
* `components`: the joined sets, in the order of their earliest members.
* `regionsOf`: the components as numbered regions without entities.
-/

namespace GridTick

/-- One pass of a seed over a list: the seed with every set that met it on the way, and the sets that did not. -/
def absorb (seed : KeySet) : List KeySet → KeySet × List KeySet
  | [] => (seed, [])
  | s :: rest =>
    if seed.meets s then absorb (seed.union s) rest
    else
      let (grown, left) := absorb seed rest
      (grown, s :: left)

theorem absorb_length_le (seed : KeySet) (sets : List KeySet) :
    (absorb seed sets).2.length ≤ sets.length := by
  induction sets generalizing seed with
  | nil => simp [absorb]
  | cons s rest ih =>
    by_cases h : seed.meets s
    · simpa [absorb, h] using Nat.le_succ_of_le (ih _)
    · simpa [absorb, h] using ih seed

/-- Passes of a seed over a list until one absorbs nothing. -/
def grow (seed : KeySet) (sets : List KeySet) : KeySet × List KeySet :=
  let (grown, left) := absorb seed sets
  if left.length < sets.length then grow grown left else (grown, left)
termination_by sets.length

theorem grow_length_le (seed : KeySet) (sets : List KeySet) :
    (grow seed sets).2.length ≤ sets.length := by
  induction seed, sets using grow.induct with
  | case1 seed sets grown left h hlt ih =>
    rw [grow, h]
    simp only [hlt, if_true]
    omega
  | case2 seed sets grown left h hlt =>
    rw [grow, h]
    simpa [hlt, h] using absorb_length_le seed sets

/-- The sets of a list joined where they overlap, in the order of their earliest members. -/
def components : List KeySet → List KeySet
  | [] => []
  | seed :: rest => (grow seed rest).1 :: components (grow seed rest).2
termination_by sets => sets.length
decreasing_by
  have := grow_length_le seed rest
  simp only [List.length_cons]
  omega

/-- The components of a list of key sets as regions, numbered by their place. -/
def regionsOf {E : Type} (sets : List KeySet) : List (Region E) :=
  (components sets).zipIdx.map fun (chunks, place) => Region.bare (RegionId.ofPlace place) chunks

end GridTick
