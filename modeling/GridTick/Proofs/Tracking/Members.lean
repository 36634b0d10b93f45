import Mathlib.Data.List.Nodup
import GridTick.Tracking.Basic

/-!
# GridTick.Proofs.Tracking.Members — who is in a collection

A collection looks identities up in a set beside the list of its entities.  As long as the set holds the identities of
the entities in the list, each there once, and it always does, the list alone says who is there.

* `Tracked.Faithful`: the identities that are present are those of the entities in order, each of them once.
* `Faithful.insert`, `Faithful.remove`, `Faithful.removeAll`: what keeps it so.
* `Faithful.mem_insert_self`, `Faithful.mem_remove`: who is there afterwards.
-/

namespace GridTick.Tracked

variable {E I : Type} [Ord I] [Std.TransOrd I] [Identified E I] {t : Tracked E I} {e e' : E}

/-- The identities that are present are those of the entities in order, each of them once. -/
structure Faithful (t : Tracked E I) : Prop where
  present : ∀ i, i ∈ t.members ↔ ∃ e ∈ t.toList, identity e = i
  once : (t.toList.map identity).Nodup

theorem faithful_empty : (empty : Tracked E I).Faithful where
  present i := by simp [empty, toList]
  once := List.nodup_nil

theorem Faithful.contains_iff (h : t.Faithful) : t.contains e = true ↔ ∃ e' ∈ t.toList, identity e' = identity e :=
  Std.ExtTreeSet.contains_iff_mem.trans (h.present _)

theorem Faithful.nodup (h : t.Faithful) : t.toList.Nodup := List.Nodup.of_map _ h.once

/-! ## Adding an entity -/

theorem toList_insert (t : Tracked E I) (e : E) :
    (t.insert e).2.toList = if t.contains e then t.toList else t.toList ++ [e] := by
  rw [insert]
  split <;> simp [toList]

theorem insert_fst (t : Tracked E I) (e : E) : (t.insert e).1 = !t.contains e := by
  rw [insert]
  split
  · rename_i hcontains
    rw [hcontains]
    rfl
  · rename_i hnew
    rw [Bool.eq_false_iff.mpr hnew]
    rfl

/-- An entity that nobody else is mistaken for is there after it was added. -/
theorem Faithful.mem_insert_self (h : t.Faithful) (hown : ∀ e' ∈ t.toList, identity e' = identity e → e' = e) :
    e ∈ (t.insert e).2.toList := by
  rw [toList_insert]
  split
  · rename_i hcontains
    obtain ⟨e', he', hid⟩ := h.contains_iff.mp hcontains
    exact hown e' he' hid ▸ he'
  · simp

theorem mem_of_mem_insert (he' : e' ∈ (t.insert e).2.toList) : e' ∈ t.toList ∨ e' = e := by
  rw [toList_insert] at he'
  split at he'
  · exact .inl he'
  · simpa using he'

theorem mem_insert_of_mem (he' : e' ∈ t.toList) : e' ∈ (t.insert e).2.toList := by
  rw [toList_insert]
  split
  · exact he'
  · exact List.mem_append_left _ he'

theorem toList_remove_sublist (t : Tracked E I) (e : E) : (t.remove e).2.toList.Sublist t.toList := by
  rw [remove]
  split
  · rw [toList, Array.toList_filter]
    exact List.filter_sublist
  · exact List.Sublist.refl _

/-! ## Where an identity is all that an order tells apart -/

variable [Std.LawfulEqOrd I]

theorem mem_members_insert (t : Tracked E I) (e : E) (i : I) :
    i ∈ (t.insert e).2.members ↔ i ∈ t.members ∨ i = identity e := by
  rw [insert]
  split
  · rename_i hcontains
    refine ⟨.inl, fun hi => hi.elim id fun hid => ?_⟩
    rw [hid]
    exact Std.ExtTreeSet.contains_iff_mem.mp hcontains
  · rw [Std.ExtTreeSet.mem_insert, Std.LawfulEqCmp.compare_eq_iff_eq, or_comm, eq_comm]

theorem Faithful.insert (h : t.Faithful) (e : E) : (t.insert e).2.Faithful := by
  rw [Tracked.insert]
  split
  · exact h
  · rename_i hnew
    refine ⟨fun i => ?_, ?_⟩
    · simp only [Std.ExtTreeSet.mem_insert, Std.LawfulEqCmp.compare_eq_iff_eq, h.present i]
      simp [toList, or_and_right, exists_or, or_comm]
    · rw [toList, Array.toList_push, List.map_append]
      refine List.nodup_append.mpr ⟨h.once, List.nodup_singleton _, fun i hi j hj hij => hnew ?_⟩
      obtain ⟨e', he', rfl⟩ := List.mem_map.mp hi
      exact h.contains_iff.mpr ⟨e', he', hij.trans (List.mem_singleton.mp hj)⟩

theorem Faithful.mem_remove (h : t.Faithful) :
    e' ∈ (t.remove e).2.toList ↔ e' ∈ t.toList ∧ identity e' ≠ identity e := by
  rw [remove]
  split
  · simp [toList, Std.LawfulEqCmp.compare_eq_iff_eq]
  · rename_i hcontains
    exact ⟨fun he' => ⟨he', fun hid => hcontains (h.contains_iff.mpr ⟨e', he', hid⟩)⟩, And.left⟩

theorem Faithful.remove (h : t.Faithful) (e : E) : (t.remove e).2.Faithful := by
  refine ⟨fun i => ?_, h.once.sublist ((toList_remove_sublist t e).map _)⟩
  have hmembers : i ∈ (t.remove e).2.members ↔ i ∈ t.members ∧ i ≠ identity e := by
    rw [Tracked.remove]
    split
    · rw [Std.ExtTreeSet.mem_erase, ne_eq, Std.LawfulEqCmp.compare_eq_iff_eq, and_comm, eq_comm]
    · rename_i hcontains
      refine ⟨fun hi => ⟨hi, fun hid => hcontains ?_⟩, And.left⟩
      exact Std.ExtTreeSet.contains_iff_mem.mpr (hid ▸ hi)
  rw [hmembers, h.present i]
  simp only [h.mem_remove]
  constructor
  · rintro ⟨⟨e', he', rfl⟩, hne⟩
    exact ⟨e', ⟨he', hne⟩, rfl⟩
  · rintro ⟨e', ⟨he', hne⟩, rfl⟩
    exact ⟨⟨e', he', rfl⟩, hne⟩

theorem Faithful.removeAll (h : t.Faithful) (es : List E) : (t.removeAll es).Faithful ∧
    ∀ e', e' ∈ (t.removeAll es).toList ↔ e' ∈ t.toList ∧ ∀ e ∈ es, identity e' ≠ identity e := by
  induction es generalizing t with
  | nil => exact ⟨h, by simp [Tracked.removeAll]⟩
  | cons e rest ih =>
    obtain ⟨hfaithful, hmem⟩ := ih (h.remove e)
    refine ⟨hfaithful, fun e' => ?_⟩
    have hcons : t.removeAll (e :: rest) = (t.remove e).2.removeAll rest := rfl
    rw [hcons, hmem, h.mem_remove, List.forall_mem_cons, and_assoc]

end GridTick.Tracked
