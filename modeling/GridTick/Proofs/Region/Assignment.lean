import Mathlib.Data.List.Perm.Basic
import GridTick.Region.Batch

/-!
# GridTick.Proofs.Region.Assignment — where entities go

Entities are put into regions one at a time.  Where each goes depends on the index alone, so what a region gains is
a filter of the entities, in their order.

* `Batch.destination`: the place in the list of regions that an entity goes to, if any.
* `Batch.assign_regions`, `Batch.assign_unassigned`: what regions gain, and what is left outside.
* `Batch.assign_contents`: nothing is lost or made twice.
-/

namespace GridTick

variable {E : Type}

/-- A region with more entities behind those already there. -/
def Region.addAll (r : Region E) (entities : List E) : Region E :=
  { r with entities := r.entities ++ entities.toArray }

namespace Region

@[simp] theorem addAll_nil (r : Region E) : r.addAll [] = r := by simp [addAll]

theorem bare_addAll (id : RegionId) (chunks : KeySet) (es : List E) :
    (bare id chunks).addAll es = ⟨id, chunks, es.toArray⟩ := by
  simp [addAll, bare]

theorem add_addAll (r : Region E) (e : E) (es : List E) : (r.add e).addAll es = r.addAll (e :: es) := by
  simp [addAll, add]

end Region

namespace Batch

variable (index : RegionIndex) (cellOf : E → Cell)

/-- Place, among `n` regions, that an entity goes to; `none` when it goes nowhere. -/
def destination (n : Nat) (e : E) : Option Nat :=
  ((index.get? (cellOf e).key).map RegionId.place).filter (· < n)

theorem place_of_none {b : Batch E} {e : E} (h : destination index cellOf b.regions.size e = none) :
    place index cellOf b e = { b with unassigned := b.unassigned.push e } := by
  unfold destination at h
  unfold place
  cases hid : index.get? (cellOf e).key with
  | none => rfl
  | some id => simp_all

theorem place_of_some {b : Batch E} {e : E} {i : Nat} (h : destination index cellOf b.regions.size e = some i) :
    place index cellOf b e = { b with regions := b.regions.modify i (·.add e) } := by
  unfold destination at h
  unfold place
  cases hid : index.get? (cellOf e).key with
  | none => simp [hid] at h
  | some id =>
    simp only [hid, Option.map_some, Option.filter_eq_some_iff, Option.some.injEq, decide_eq_true_eq] at h
    obtain ⟨rfl, hlt⟩ := h
    simp only [if_pos hlt]

/-- Placing entities one after another. -/
theorem foldl_place (b : Batch E) (entities : List E) :
    let b' := entities.foldl (place index cellOf) b
    let goes := destination index cellOf b.regions.size
    b'.regions.size = b.regions.size ∧
      b'.unassigned.toList = b.unassigned.toList ++ entities.filter (fun e => goes e = none) ∧
      ∀ i : Nat, b'.regions[i]? = b.regions[i]?.map fun r => r.addAll (entities.filter fun e => goes e = some i) := by
  induction entities generalizing b with
  | nil => simp
  | cons e rest ih =>
    cases hgoes : destination index cellOf b.regions.size e with
    | none =>
      have hplace := place_of_none index cellOf hgoes
      obtain ⟨hsize, hun, hreg⟩ := ih (place index cellOf b e)
      rw [hplace] at hsize hun hreg
      refine ⟨?_, ?_, fun i => ?_⟩
      · simpa [hplace] using hsize
      · simpa [hplace, hgoes] using hun
      · simpa [hplace, hgoes] using hreg i
    | some j =>
      have hplace := place_of_some index cellOf hgoes
      obtain ⟨hsize, hun, hreg⟩ := ih (place index cellOf b e)
      rw [hplace] at hsize hun hreg
      refine ⟨?_, ?_, fun i => ?_⟩
      · simpa [hplace] using hsize
      · simpa [hplace, hgoes] using hun
      · have hi := hreg i
        simp only [Array.size_modify, Array.getElem?_modify] at hi
        rw [List.foldl_cons, hplace, hi]
        by_cases hji : j = i
        · subst hji
          cases b.regions[j]? <;> simp [hgoes, Region.add_addAll]
        · simp [hji, hgoes]

section Assign

variable {index : RegionIndex} {cellOf : E → Cell} {regions : List (Region E)} {entities : List E}

theorem assign_unassigned : (assign regions index cellOf entities).unassigned.toList =
    entities.filter fun e => destination index cellOf regions.length e = none := by
  have h := (foldl_place index cellOf ⟨regions.toArray, #[]⟩ entities).2.1
  simpa [assign] using h

theorem assign_regions (i : Nat) : (assign regions index cellOf entities).regions[i]? =
    regions[i]?.map fun r =>
      r.addAll (entities.filter fun e => destination index cellOf regions.length e = some i) := by
  have h := (foldl_place index cellOf ⟨regions.toArray, #[]⟩ entities).2.2 i
  simpa [assign] using h

end Assign

/-! ## Nothing is lost or made twice -/

/-- All entities of a batch: those outside, then those of each region. -/
def contents (b : Batch E) : List E := b.unassigned.toList ++ b.regions.toList.flatMap (·.entities.toList)

theorem contents_push (b : Batch E) (e : E) :
    ({ b with unassigned := b.unassigned.push e } : Batch E).contents.Perm (e :: b.contents) := by
  simp [contents]

theorem contents_modify (b : Batch E) {i : Nat} (hi : i < b.regions.size) (e : E) :
    ({ b with regions := b.regions.modify i (·.add e) } : Batch E).contents.Perm (e :: b.contents) := by
  obtain ⟨before, r, after, hsplit, -, hmodify⟩ := List.exists_of_modify (·.add e) (l := b.regions.toList) hi
  rw [contents, contents, Array.toList_modify, hmodify, hsplit]
  simp only [List.flatMap_append, List.flatMap_cons, Region.add_entities_toList]
  -- the new entity stands behind those of its region
  have hmid : ∀ l₁ l₂ : List E, (l₁ ++ e :: l₂).Perm (e :: (l₁ ++ l₂)) := fun _ _ => List.perm_middle
  simpa using hmid (b.unassigned.toList ++ (before.flatMap (·.entities.toList) ++ r.entities.toList))
    (after.flatMap (·.entities.toList))

theorem place_contents (index : RegionIndex) (cellOf : E → Cell) (b : Batch E) (e : E) :
    (place index cellOf b e).contents.Perm (e :: b.contents) := by
  cases hgoes : destination index cellOf b.regions.size e with
  | none =>
    rw [place_of_none index cellOf hgoes]
    exact b.contents_push e
  | some i =>
    rw [place_of_some index cellOf hgoes]
    exact b.contents_modify (of_decide_eq_true (Option.filter_eq_some_iff.mp hgoes).2) e

theorem foldl_place_contents (index : RegionIndex) (cellOf : E → Cell) (b : Batch E) (entities : List E) :
    (entities.foldl (place index cellOf) b).contents.Perm (b.contents ++ entities) := by
  induction entities generalizing b with
  | nil => simp
  | cons e rest ih =>
    refine (ih (place index cellOf b e)).trans ?_
    refine ((place_contents index cellOf b e).append_right rest).trans ?_
    exact List.perm_middle.symm

/-- Regions without entities, and the entities put into them, make a batch of just these entities. -/
theorem assign_contents {index : RegionIndex} {cellOf : E → Cell} {regions : List (Region E)} {entities : List E}
    (hvacant : ∀ r ∈ regions, r.entities = #[]) : (assign regions index cellOf entities).contents.Perm entities := by
  have hstart : (⟨regions.toArray, #[]⟩ : Batch E).contents = [] := by
    simp only [contents, List.nil_append, List.flatMap_eq_nil_iff]
    exact fun r hr => by rw [hvacant r hr]
  have h := foldl_place_contents index cellOf ⟨regions.toArray, #[]⟩ entities
  rwa [hstart] at h

end Batch

end GridTick
