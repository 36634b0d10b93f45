import Mathlib.Data.List.Nodup
import GridTick.Synthetic.Mob

/-!
# GridTick.Proofs.Synthetic.Herd — what happens to the mobs of a herd

A crowd is a set of handles that tell the mobs of a herd apart.  In a crowd that is linked, a rider names its vehicle and
the vehicle lists its rider, or neither does.  What each thing that may happen to a mob leaves of the crowd is said once,
by what can be read of each mob before and after.

* `Herd.read_update`, `Herd.read_updateAll`: reading after a change.
* `Herd.Linked`: a linked crowd.
* `Herd.Mounted`, `Herd.Despawned`, `Herd.Dismounted`, `Herd.Carried`: what a ride, a despawn, a dismount and a tick leave;
  the crowd stays linked.
* `Linked.mount`, `Linked.checkDespawn`, `Linked.stopRiding`, `Linked.tickMob`: each of them happens so.
-/

namespace GridTick.Synthetic.Herd

/-! ## Reading after a change -/

section Reading

variable {α : Type} {h : Herd} {r q : MobRef} {rs : List MobRef} {change : Mob → Mob} {default : α} {get : Mob → α}

theorem read_update : (h.update r change).read q default get =
    if r.slot = q.slot then h.read q default (get ∘ change) else h.read q default get := by
  rw [read, update, Array.getElem?_modify]
  by_cases hslot : r.slot = q.slot
  · rw [if_pos hslot, if_pos hslot, read]
    cases h.mobs[q.slot]? <;> rfl
  · rw [if_neg hslot, if_neg hslot, read]

theorem read_updateAll (hnodup : (rs.map MobRef.slot).Nodup) : (h.updateAll rs change).read q default get =
    if q.slot ∈ rs.map MobRef.slot then h.read q default (get ∘ change) else h.read q default get := by
  induction rs generalizing h with
  | nil => rfl
  | cons r rest ih =>
    obtain ⟨hnot, hrest⟩ := List.nodup_cons.mp hnodup
    have hcons : h.updateAll (r :: rest) change = (h.update r change).updateAll rest change := rfl
    rw [hcons, ih hrest, read_update, read_update, List.map_cons]
    by_cases hslot : r.slot = q.slot
    · rw [if_neg (hslot ▸ hnot), if_pos hslot, if_pos (List.mem_cons.mpr (.inl hslot.symm))]
    · have hmem : q.slot ∈ r.slot :: rest.map MobRef.slot ↔ q.slot ∈ rest.map MobRef.slot := by
        simp [Ne.symm hslot]
      simp only [hmem, if_neg hslot]

/-- A mob that is kept can be read. -/
theorem exists_mob (hq : q.slot < h.mobs.size) :
    ∃ m, h.mobs[q.slot]? = some m ∧ ∀ {β : Type} (default : β) (get : Mob → β), h.read q default get = get m :=
  ⟨h.mobs[q.slot], Array.getElem?_eq_getElem hq, fun _ _ => by rw [read, Array.getElem?_eq_getElem hq]⟩

/-- What is the same for every mob. -/
theorem read_const : h.read q default (fun _ => default) = default := by
  rw [read]
  cases h.mobs[q.slot]? <;> rfl

@[simp] theorem size_update : (h.update r change).mobs.size = h.mobs.size := Array.size_modify

@[simp] theorem tracked_update : (h.update r change).tracked = h.tracked := rfl

@[simp] theorem nextId_update : (h.update r change).nextId = h.nextId := rfl

@[simp] theorem size_updateAll : (h.updateAll rs change).mobs.size = h.mobs.size := by
  induction rs generalizing h with
  | nil => rfl
  | cons r rest ih => exact ih.trans size_update

@[simp] theorem tracked_updateAll : (h.updateAll rs change).tracked = h.tracked := by
  induction rs generalizing h with
  | nil => rfl
  | cons r rest ih => exact ih

@[simp] theorem nextId_updateAll : (h.updateAll rs change).nextId = h.nextId := by
  induction rs generalizing h with
  | nil => rfl
  | cons r rest ih => exact ih

theorem tracked_stopRiding : (h.stopRiding r).tracked = h.tracked := by
  rw [stopRiding]
  split <;> rfl

theorem tracked_checkDespawn : (h.checkDespawn r).tracked = h.tracked := by
  rw [checkDespawn]
  split
  · rfl
  · split
    · rfl
    · rw [tracked_updateAll, tracked_update]

theorem tracked_tickMob : (h.tickMob r).2.tracked = h.tracked := by
  rw [tickMob]
  split
  · rfl
  · exact tracked_updateAll

end Reading

def ageOf (h : Herd) (r : MobRef) : UInt32 := h.read r 0 (·.age)

def lifetimeOf (h : Herd) (r : MobRef) : UInt32 := h.read r 0 (·.lifetime)

/-- Where a mob is, if it is kept. -/
def positionOf (h : Herd) (r : MobRef) : Option Position := h.read r none fun m => some m.position

/-- A mob has lived its time. -/
def Due (h : Herd) (r : MobRef) : Prop := ¬ h.ageOf r < h.lifetimeOf r

theorem cellOf_eq (h : Herd) (r : MobRef) : h.cellOf r = (h.positionOf r).elim Cell.origin Position.cell := by
  rw [cellOf, positionOf, read, read]
  cases h.mobs[r.slot]? <;> rfl

theorem lists_iff {h : Herd} {v r : MobRef} : h.lists v r = true ↔ ∃ q ∈ h.passengersOf v, q.id = r.id := by
  simp [lists]

/-! ## Linked crowds -/

/-- Handles that tell the mobs of a herd apart, and links between them with two sides. -/
structure Linked (h : Herd) (crowd : MobRef → Prop) : Prop where
  slots : ∀ {a b}, crowd a → crowd b → a.slot = b.slot → a = b
  ids : ∀ {a b}, crowd a → crowd b → a.id = b.id → a = b
  kept : ∀ {r}, crowd r → r.slot < h.mobs.size
  vehicle_mem : ∀ {r v}, crowd r → h.vehicleOf r = some v → crowd v
  passengers_mem : ∀ {v r}, crowd v → r ∈ h.passengersOf v → crowd r
  linked : ∀ {r v}, crowd r → crowd v → (h.vehicleOf r = some v ↔ r ∈ h.passengersOf v)
  nodup : ∀ {v}, crowd v → (h.passengersOf v).Nodup

/-- The same mobs with the same lifetimes, the same of them tracked. -/
structure SameMobs (h h' : Herd) (crowd : MobRef → Prop) : Prop where
  size : h'.mobs.size = h.mobs.size
  tracked : h'.tracked = h.tracked
  nextId : h'.nextId = h.nextId
  lifetime : ∀ q, crowd q → h'.lifetimeOf q = h.lifetimeOf q

/-- After `r` has been put on `v`. -/
structure Mounted (h h' : Herd) (crowd : MobRef → Prop) (r v : MobRef) : Prop extends SameMobs h h' crowd where
  removed : ∀ q, crowd q → h'.isRemoved q = h.isRemoved q
  passengers : ∀ q, crowd q → h'.passengersOf q = if q = v then h.passengersOf q ++ [r] else h.passengersOf q
  vehicle : ∀ q, crowd q → h'.vehicleOf q = if q = r then some v else h.vehicleOf q
  position : ∀ q, crowd q → h'.positionOf q = h.positionOf q

/-- After `r` has gone: it carries nobody any more, and those it carried ride nothing. -/
structure Despawned (h h' : Herd) (crowd : MobRef → Prop) (r : MobRef) : Prop extends SameMobs h h' crowd where
  removed : ∀ q, crowd q → (h'.isRemoved q = true ↔ q = r ∨ h.isRemoved q = true)
  passengers : ∀ q, crowd q → h'.passengersOf q = if q = r then [] else h.passengersOf q
  vehicle : ∀ q, crowd q → h'.vehicleOf q = if h.vehicleOf q = some r then none else h.vehicleOf q
  age : ∀ q, crowd q → h'.ageOf q = h.ageOf q
  position : ∀ q, crowd q → h'.positionOf q = h.positionOf q

/-- After `r` has been taken off what it rode, if anything. -/
structure Dismounted (h h' : Herd) (crowd : MobRef → Prop) (r : MobRef) : Prop extends SameMobs h h' crowd where
  removed : ∀ q, crowd q → h'.isRemoved q = h.isRemoved q
  passengers : ∀ q, crowd q → h'.passengersOf q = (h.passengersOf q).filter (· ≠ r)
  vehicle : ∀ q, crowd q → h'.vehicleOf q = if q = r then none else h.vehicleOf q
  age : ∀ q, crowd q → h'.ageOf q = h.ageOf q
  position : ∀ q, crowd q → h'.positionOf q = h.positionOf q

/-- After a tick of `r`: it and those it carries are older, and those it carries are where it is. -/
structure Carried (h h' : Herd) (crowd : MobRef → Prop) (r : MobRef) : Prop extends SameMobs h h' crowd where
  removed : ∀ q, crowd q → h'.isRemoved q = h.isRemoved q
  passengers : ∀ q, crowd q → h'.passengersOf q = h.passengersOf q
  vehicle : ∀ q, crowd q → h'.vehicleOf q = h.vehicleOf q
  age : ∀ q, crowd q → h'.ageOf q = if q = r ∨ h.vehicleOf q = some r then h.ageOf q + 1 else h.ageOf q
  along : ∀ q, crowd q → h.vehicleOf q = some r → h'.positionOf q = h'.positionOf r
  position : ∀ q, crowd q → q ≠ r → h.vehicleOf q ≠ some r → h'.positionOf q = h.positionOf q

section Linked

variable {h h' : Herd} {crowd : MobRef → Prop} {r q v : MobRef}

namespace Linked

theorem slot_eq_iff (hl : h.Linked crowd) (hr : crowd r) (hq : crowd q) : r.slot = q.slot ↔ q = r :=
  ⟨fun heq => hl.slots hq hr heq.symm, fun heq => by rw [heq]⟩

theorem lists_iff_mem (hl : h.Linked crowd) (hr : crowd r) (hv : crowd v) : h.lists v r = true ↔ r ∈ h.passengersOf v := by
  rw [lists_iff]
  refine ⟨fun ⟨q, hq, hid⟩ => ?_, fun hmem => ⟨r, hmem, rfl⟩⟩
  rwa [← hl.ids (hl.passengers_mem hv hq) hr hid]

theorem slots_nodup (hl : h.Linked crowd) (hv : crowd v) : ((h.passengersOf v).map MobRef.slot).Nodup :=
  (hl.nodup hv).map_on fun _ ha _ hb => hl.slots (hl.passengers_mem hv ha) (hl.passengers_mem hv hb)

theorem slot_mem_iff (hl : h.Linked crowd) (hv : crowd v) (hq : crowd q) :
    q.slot ∈ (h.passengersOf v).map MobRef.slot ↔ h.vehicleOf q = some v := by
  rw [hl.linked hq hv, List.mem_map]
  refine ⟨fun ⟨a, ha, hslot⟩ => ?_, fun hmem => ⟨q, hmem, rfl⟩⟩
  rwa [← hl.slots (hl.passengers_mem hv ha) hq hslot]

/-- Links that are named and listed alike, in the same herd. -/
theorem of_links (hl : h.Linked crowd) (hsame : SameMobs h h' crowd)
    (hvehicle : ∀ {r v}, crowd r → h'.vehicleOf r = some v → h.vehicleOf r = some v)
    (hpassengers : ∀ {v}, crowd v → (h'.passengersOf v).Sublist (h.passengersOf v))
    (hlinked : ∀ {r v}, crowd r → crowd v → (h'.vehicleOf r = some v ↔ r ∈ h'.passengersOf v)) : h'.Linked crowd where
  slots := hl.slots
  ids := hl.ids
  kept hr := hsame.size ▸ hl.kept hr
  vehicle_mem hr hv := hl.vehicle_mem hr (hvehicle hr hv)
  passengers_mem hv hr := hl.passengers_mem hv ((hpassengers hv).subset hr)
  linked := hlinked
  nodup hv := (hl.nodup hv).sublist (hpassengers hv)

end Linked

/-- The links stay two-sided if `r` rode nothing. -/
theorem Mounted.linked (hd : h.Mounted h' crowd r v) (hl : h.Linked crowd) (hr : crowd r) (hv : crowd v)
    (hafoot : h.vehicleOf r = none) : h'.Linked crowd := by
  have hunlisted : ∀ {u}, crowd u → r ∉ h.passengersOf u := fun hu hmem => by
    rw [(hl.linked hr hu).mpr hmem] at hafoot
    cases hafoot
  refine ⟨hl.slots, hl.ids, fun hq => hd.size ▸ hl.kept hq, fun {q u} hq hu => ?_, fun {u q} hu hq => ?_,
    fun {q u} hq hu => ?_, fun {u} hu => ?_⟩
  · rw [hd.vehicle q hq] at hu
    split at hu
    · exact Option.some.inj hu ▸ hv
    · exact hl.vehicle_mem hq hu
  · rw [hd.passengers u hu] at hq
    split at hq
    · rcases List.mem_append.mp hq with hq | hq
      · exact hl.passengers_mem hu hq
      · exact List.mem_singleton.mp hq ▸ hr
    · exact hl.passengers_mem hu hq
  · rw [hd.vehicle q hq, hd.passengers u hu]
    by_cases hqr : q = r
    · subst hqr
      by_cases huv : u = v
      · simp [huv]
      · simp [huv, Ne.symm huv, hunlisted hu]
    · by_cases huv : u = v
      · simp [huv, hqr, hl.linked hq hv]
      · simp [huv, hqr, hl.linked hq hu]
  · rw [hd.passengers u hu]
    split
    · exact List.nodup_append.mpr ⟨hl.nodup hu, List.nodup_singleton r, fun a ha b hb hab =>
        hunlisted hu (List.mem_singleton.mp hb ▸ hab ▸ ha)⟩
    · exact hl.nodup hu

theorem Despawned.linked (hd : h.Despawned h' crowd r) (hl : h.Linked crowd) : h'.Linked crowd := by
  refine hl.of_links hd.toSameMobs (fun {q v} hq hv => ?_) (fun {v} hv => ?_) fun {q v} hq hv => ?_
  · rw [hd.vehicle q hq] at hv
    split at hv
    · cases hv
    · exact hv
  · rw [hd.passengers v hv]
    split
    · exact List.nil_sublist _
    · exact List.Sublist.refl _
  · rw [hd.vehicle q hq, hd.passengers v hv]
    by_cases hvr : v = r
    · subst hvr
      simp
    · rw [if_neg hvr, ← hl.linked hq hv]
      by_cases hqr : h.vehicleOf q = some r
      · simp [hqr, Ne.symm hvr]
      · simp [hqr]

theorem Dismounted.linked (hd : h.Dismounted h' crowd r) (hl : h.Linked crowd) : h'.Linked crowd := by
  refine hl.of_links hd.toSameMobs (fun {q v} hq hv => ?_) (fun {v} hv => ?_) fun {q v} hq hv => ?_
  · rw [hd.vehicle q hq] at hv
    split at hv
    · cases hv
    · exact hv
  · rw [hd.passengers v hv]
    exact List.filter_sublist
  · rw [hd.vehicle q hq, hd.passengers v hv, List.mem_filter, ← hl.linked hq hv]
    by_cases hqr : q = r
    · simp [hqr]
    · simp [hqr]

theorem Carried.linked (hd : h.Carried h' crowd r) (hl : h.Linked crowd) : h'.Linked crowd := by
  refine hl.of_links hd.toSameMobs (fun {q v} hq hv => ?_) (fun {v} hv => ?_) fun {q v} hq hv => ?_
  · rwa [hd.vehicle q hq] at hv
  · rw [hd.passengers v hv]
  · rw [hd.vehicle q hq, hd.passengers v hv, hl.linked hq hv]

/-! ## What may happen to a mob -/

theorem Linked.mount (hl : h.Linked crowd) (hr : crowd r) (hv : crowd v) : h.Mounted (h.mount r v) crowd r v := by
  refine ⟨⟨by simp [Herd.mount], rfl, rfl, fun q _ => ?_⟩, fun q _ => ?_, fun q hq => ?_, fun q hq => ?_, fun q _ => ?_⟩
  · simp only [lifetimeOf, Herd.mount, read_update, Function.comp_def, ite_self]
  · simp only [isRemoved, Herd.mount, read_update, Function.comp_def, ite_self]
  · obtain ⟨m, -, hread⟩ := exists_mob (hl.kept hq)
    simp only [passengersOf, Herd.mount, read_update, Function.comp_def, hl.slot_eq_iff hv hq, ite_self, hread]
  · obtain ⟨m, -, hread⟩ := exists_mob (hl.kept hq)
    simp only [vehicleOf, Herd.mount, read_update, Function.comp_def, hl.slot_eq_iff hr hq, ite_self, hread]
  · simp only [positionOf, Herd.mount, read_update, Function.comp_def, ite_self]

theorem checkDespawn_eq (hr : r.slot < h.mobs.size) : h.checkDespawn r =
    if h.ageOf r < h.lifetimeOf r ∨ h.isRemoved r = true then h
    else (h.update r fun m => { m with removed := true, passengers := [] }).updateAll (h.passengersOf r)
      fun p => { p with vehicle := none } := by
  obtain ⟨m, hm, hread⟩ := exists_mob hr
  rw [ageOf, lifetimeOf, isRemoved, passengersOf, hread, hread, hread, hread, checkDespawn, hm]

/-- A mob that is checked has gone if it has lived its time and was there; otherwise nothing happens. -/
theorem Linked.checkDespawn (hl : h.Linked crowd) (hr : crowd r) :
    (h.checkDespawn r = h ∧ (h.Due r → h.isRemoved r = true)) ∨
      (h.Due r ∧ h.isRemoved r = false ∧ h.Despawned (h.checkDespawn r) crowd r) := by
  have heq := checkDespawn_eq (hl.kept hr)
  split at heq
  · rename_i hspared
    exact .inl ⟨heq, fun hdue => hspared.resolve_left hdue⟩
  · rename_i hgone
    rw [not_or, Bool.not_eq_true] at hgone
    refine .inr ⟨hgone.1, hgone.2, ?_⟩
    have hnodup := hl.slots_nodup hr
    have hslot := fun {q} hq => hl.slot_eq_iff (q := q) hr hq
    have hrider := fun {q} hq => hl.slot_mem_iff (q := q) hr hq
    generalize h.passengersOf r = riders at heq hnodup hrider
    rw [heq]
    refine ⟨⟨by simp, by simp, by simp, fun q hq => ?_⟩, fun q hq => ?_, fun q hq => ?_, fun q hq => ?_, fun q hq => ?_,
      fun q hq => ?_⟩
    · simp [lifetimeOf, read_updateAll hnodup, read_update, Function.comp_def]
    · simp only [isRemoved, read_updateAll hnodup, read_update, Function.comp_def, hslot hq, ite_self]
      by_cases hqr : q = r
      · obtain ⟨m, -, hread⟩ := exists_mob (hl.kept hq)
        rw [if_pos hqr, hread]
        exact iff_of_true rfl (.inl hqr)
      · simp [hqr]
    · simp only [passengersOf, read_updateAll hnodup, read_update, Function.comp_def, hslot hq, ite_self, read_const]
    · rw [vehicleOf, read_updateAll hnodup]
      simp only [hrider hq, read_update, Function.comp_def, ite_self, read_const]
      rfl
    · simp only [ageOf, read_updateAll hnodup, read_update, Function.comp_def, ite_self]
    · simp only [positionOf, read_updateAll hnodup, read_update, Function.comp_def, ite_self]

theorem stopRiding_eq {v : MobRef} (hv : h.vehicleOf r = some v) : h.stopRiding r =
    (h.update r fun m => { m with vehicle := none }).update v
      fun m => { m with passengers := m.passengers.filter (·.id != r.id) } := by
  rw [stopRiding, hv]

/-- A mob that stops riding is taken off what it rides, if anything. -/
theorem Linked.stopRiding (hl : h.Linked crowd) (hr : crowd r) : h.Dismounted (h.stopRiding r) crowd r := by
  have hunlisted : ∀ {v}, crowd v → h.vehicleOf r ≠ some v → h.passengersOf v = (h.passengersOf v).filter (· ≠ r) := by
    intro v hv hne
    refine (List.filter_eq_self.mpr fun q hq => ?_).symm
    simpa using fun heq : q = r => hne ((hl.linked hr hv).mpr (heq ▸ hq))
  cases hvehicle : h.vehicleOf r with
  | none =>
    have heq : h.stopRiding r = h := by rw [Herd.stopRiding, hvehicle]
    rw [heq]
    refine ⟨⟨rfl, rfl, rfl, fun _ _ => rfl⟩, fun _ _ => rfl, fun q hq => hunlisted hq (by rw [hvehicle]; nofun),
      fun q hq => ?_, fun _ _ => rfl, fun _ _ => rfl⟩
    split
    · rename_i hqr
      rw [hqr, hvehicle]
    · rfl
  | some v =>
    have hv := hl.vehicle_mem hr hvehicle
    have hrider := fun {q} hq => hl.slot_eq_iff (q := q) hr hq
    have hslot := fun {q} hq => hl.slot_eq_iff (q := q) hv hq
    rw [stopRiding_eq hvehicle]
    refine ⟨⟨by simp, rfl, rfl, fun q hq => ?_⟩, fun q hq => ?_, fun q hq => ?_, fun q hq => ?_, fun q hq => ?_,
      fun q hq => ?_⟩
    · simp only [lifetimeOf, read_update, Function.comp_def, ite_self]
    · simp only [isRemoved, read_update, Function.comp_def, ite_self]
    · have hfilter : (h.passengersOf v).filter (·.id != r.id) = (h.passengersOf v).filter (· ≠ r) := by
        refine List.filter_congr fun a ha => ?_
        by_cases hne : a = r
        · simp [hne]
        · simp [hne, mt (hl.ids (hl.passengers_mem hv ha) hr) hne]
      by_cases hqv : q = v
      · obtain ⟨m, -, hread⟩ := exists_mob (hl.kept hv)
        rw [hqv, ← hfilter, passengersOf, passengersOf, read_update, read_update, hread, hread, hread]
        simp
      · have hother : h.vehicleOf r ≠ some q := by
          rw [hvehicle]
          exact fun heq => hqv (Option.some.inj heq).symm
        rw [← hunlisted hq hother, passengersOf, read_update, if_neg (mt (hslot hq).mp hqv), read_update]
        split <;> rfl
    · simp only [vehicleOf, read_update, Function.comp_def, hrider hq, ite_self, read_const]
    · simp only [ageOf, read_update, Function.comp_def, ite_self]
    · simp only [positionOf, read_update, Function.comp_def, ite_self]

theorem tickMob_eq (hr : r.slot < h.mobs.size) :
    ∃ position, (h.update r fun m => m.wander.grow).positionOf r = some position ∧ h.tickMob r =
      ((h.passengersOf r).length, (h.update r fun m => m.wander.grow).updateAll (h.passengersOf r)
        fun p => ({ p with position } : Mob).grow) := by
  obtain ⟨m, hm, hread⟩ := exists_mob hr
  have hm' : (h.update r fun m => m.wander.grow).mobs[r.slot]? = some m.wander.grow := by
    rw [update, Array.getElem?_modify, if_pos rfl, hm]
    rfl
  refine ⟨m.wander.grow.position, ?_, ?_⟩
  · rw [positionOf, read, hm']
  · rw [tickMob, hm', passengersOf, hread]
    rfl

/-- A mob that does not ride itself takes those that ride it along. -/
theorem Linked.tickMob (hl : h.Linked crowd) (hr : crowd r) (hself : h.vehicleOf r ≠ some r) :
    (h.tickMob r).1 = (h.passengersOf r).length ∧ h.Carried (h.tickMob r).2 crowd r := by
  obtain ⟨position, hposition, heq⟩ := tickMob_eq (hl.kept hr)
  rw [heq]
  refine ⟨rfl, ?_⟩
  have hnodup := hl.slots_nodup hr
  have hslot := fun {q} hq => hl.slot_eq_iff (q := q) hr hq
  have hrider := fun {q} hq => hl.slot_mem_iff (q := q) hr hq
  generalize h.passengersOf r = riders at hnodup hrider
  -- what the tick of `r` does to `q`, if `q` does not ride it
  have hread : ∀ {α : Type} {q} (default : α) (get : Mob → α), crowd q →
      ((h.update r fun m => m.wander.grow).updateAll riders fun p => ({ p with position } : Mob).grow).read q default get =
        if h.vehicleOf q = some r then h.read q default (get ∘ fun p => ({ p with position } : Mob).grow)
        else if q = r then h.read q default (get ∘ fun m => m.wander.grow) else h.read q default get := by
    intro α q default get hq
    rw [read_updateAll hnodup, read_update, read_update]
    simp only [hslot hq, hrider hq]
    by_cases hriding : h.vehicleOf q = some r
    · have hne : q ≠ r := fun heq => hself (heq ▸ hriding)
      rw [if_pos hriding, if_pos hriding, if_neg hne]
    · rw [if_neg hriding, if_neg hriding]
  have hsame : ∀ {α : Type} {q} (default : α) (get : Mob → α), (get ∘ fun p => ({ p with position } : Mob).grow) = get →
      (get ∘ fun m => m.wander.grow) = get → crowd q →
      ((h.update r fun m => m.wander.grow).updateAll riders fun p => ({ p with position } : Mob).grow).read q default get =
        h.read q default get := by
    intro α q default get hrider hr hq
    rw [hread _ _ hq, hrider, hr, ite_self, ite_self]
  refine ⟨⟨by simp, by simp, by simp, fun q hq => ?_⟩, fun q hq => ?_, fun q hq => ?_, fun q hq => ?_, fun q hq => ?_,
    fun q hq hriding => ?_, fun q hq hne hriding => ?_⟩
  · exact hsame _ _ rfl rfl hq
  · exact hsame _ _ rfl rfl hq
  · exact hsame _ _ rfl rfl hq
  · exact hsame _ _ rfl rfl hq
  · obtain ⟨m, -, hm⟩ := exists_mob (hl.kept hq)
    rw [ageOf, ageOf, hread _ _ hq, hm, hm, hm]
    by_cases hriding : h.vehicleOf q = some r
    · rw [if_pos hriding, if_pos (.inr hriding)]
      rfl
    · by_cases hqr : q = r
      · rw [if_neg hriding, if_pos hqr, if_pos (.inl hqr)]
        rfl
      · rw [if_neg hriding, if_neg hqr, if_neg (not_or.mpr ⟨hqr, hriding⟩)]
  · obtain ⟨m, -, hm⟩ := exists_mob (hl.kept hq)
    rw [positionOf, positionOf, hread _ _ hq, hread _ _ hr, if_pos hriding, if_neg hself, if_pos rfl, hm]
    rw [positionOf, read_update, if_pos rfl] at hposition
    exact hposition.symm
  · rw [positionOf, hread _ _ hq, if_neg hriding, if_neg hne]
    rfl

end Linked

end GridTick.Synthetic.Herd
