import GridTick.Proofs.Tick.Terms
import GridTick.Proofs.Tracking.Members
import GridTick.Proofs.Synthetic.Herd
import GridTick.Synthetic.World

/-!
# GridTick.Proofs.Synthetic.Riders — riders stay with what they ride

Whatever is done to a made-up world, a rider and its vehicle know each other and stand at one place.  So a batch puts
them into one region, or both outside all regions, and no two tasks ever meet at one pair.

* `Numbered`: the handles of the mobs that were ever kept.
* `Herd.Sound`: the invariant.
* `Sound.add`, `Sound.track`, `Sound.mounted`, `Sound.spawnBatch`, `Sound.reap`, `Sound.happens`: what keeps it.
* `ridingTerms`, `tick_sound`: a tick keeps it, however its tasks take turns.
* `Reached`: the worlds that the operations lead to.
* `Paired`, `reached_paired`: riders and vehicles in all of them.
-/

namespace GridTick.Synthetic

/-! ## Handles -/

/-- The handle of one of `n` mobs, numbered one after another from `first` on. -/
def Numbered (first : UInt32) (n : Nat) (r : MobRef) : Prop := r.slot < n ∧ r.id = first + UInt32.ofNat r.slot

section Handles

variable {first : UInt32} {n : Nat} {a b r : MobRef}

theorem Numbered.eq_of_slot (ha : Numbered first n a) (hb : Numbered first n b) (h : a.slot = b.slot) : a = b := by
  obtain ⟨slot, id⟩ := a
  obtain ⟨slot', id'⟩ := b
  obtain rfl : slot = slot' := h
  exact congrArg (MobRef.mk slot) (ha.2.trans hb.2.symm)

/-- Fewer than `2^32` mobs have different numbers. -/
theorem Numbered.eq_of_id (hn : n < UInt32.size) (ha : Numbered first n a) (hb : Numbered first n b)
    (h : a.id = b.id) : a = b := by
  rw [ha.2, hb.2, UInt32.add_right_inj] at h
  have hslot := congrArg UInt32.toNat h
  rw [UInt32.toNat_ofNat_of_lt' (ha.1.trans hn), UInt32.toNat_ofNat_of_lt' (hb.1.trans hn)] at hslot
  exact ha.eq_of_slot hb hslot

theorem numbered_succ : Numbered first (n + 1) r ↔ Numbered first n r ∨ r = ⟨n, first + UInt32.ofNat n⟩ := by
  obtain ⟨slot, id⟩ := r
  simp only [Numbered, MobRef.mk.injEq]
  constructor
  · rintro ⟨hslot, rfl⟩
    rcases Nat.lt_succ_iff_lt_or_eq.mp hslot with hlt | rfl
    · exact .inl ⟨hlt, rfl⟩
    · exact .inr ⟨rfl, rfl⟩
  · rintro (⟨hslot, rfl⟩ | ⟨rfl, rfl⟩)
    · exact ⟨Nat.lt_succ_of_lt hslot, rfl⟩
    · exact ⟨Nat.lt_succ_self _, rfl⟩

end Handles

namespace Herd

/-! ## The invariant -/

/-- Riders and vehicles know each other; what is ridden rides nothing, is tracked and is where its riders are; and what
has gone carries nobody. -/
structure Sound (first : UInt32) (h : Herd) : Prop where
  room : h.mobs.size < UInt32.size
  next : h.nextId = first + UInt32.ofNat h.mobs.size
  linked : h.Linked (Numbered first h.mobs.size)
  flat : ∀ {r v}, Numbered first h.mobs.size r → h.vehicleOf r = some v → h.vehicleOf v = none
  gone : ∀ {v}, Numbered first h.mobs.size v → h.isRemoved v = true → h.passengersOf v = []
  together : ∀ {r v}, Numbered first h.mobs.size r → h.vehicleOf r = some v → h.positionOf r = h.positionOf v
  ridden : ∀ {r v}, Numbered first h.mobs.size r → h.vehicleOf r = some v → v ∈ h.tracked.toList
  members : ∀ r ∈ h.tracked.toList, Numbered first h.mobs.size r
  faithful : h.tracked.Faithful

variable {first : UInt32} {h h' : Herd} {r v : MobRef}

theorem sound_empty (first : UInt32) : (empty first).Sound first := by
  have hnone : ∀ {r}, ¬ Numbered first (empty first).mobs.size r := fun hr => Nat.not_lt_zero _ hr.1
  have hnobody : ∀ r, r ∉ (empty first).tracked.toList := fun r hr => by cases hr
  refine ⟨Nat.zero_lt_succ _, by simp [empty], ⟨fun ha => (hnone ha).elim, fun ha => (hnone ha).elim, fun ha => (hnone ha).elim,
    fun ha => (hnone ha).elim, fun ha => (hnone ha).elim, fun ha => (hnone ha).elim, fun ha => (hnone ha).elim⟩,
    fun hr => (hnone hr).elim, fun hr => (hnone hr).elim, fun hr => (hnone hr).elim, fun hr => (hnone hr).elim,
    fun r hr => (hnobody r hr).elim, Tracked.faithful_empty⟩

/-! ## New mobs -/

/-- The same herd with one more mob. -/
def add (h : Herd) (m : Mob) : Herd := { h with mobs := h.mobs.push m, nextId := h.nextId + 1 }

/-- The handle that the next mob gets. -/
def nextRef (h : Herd) : MobRef := ⟨h.mobs.size, h.nextId⟩

section Add

variable {α : Type} {m : Mob} {default : α} {get : Mob → α}

theorem read_add_of_lt (hr : r.slot < h.mobs.size) : (h.add m).read r default get = h.read r default get := by
  rw [read, read, add, Array.getElem?_push_lt hr, Array.getElem?_eq_getElem hr]

theorem read_add_nextRef : (h.add m).read h.nextRef default get = get m := by
  rw [read, add, nextRef, Array.getElem?_push_size]

@[simp] theorem size_add : (h.add m).mobs.size = h.mobs.size + 1 := Array.size_push _

/-- The mobs of the greater herd are those of the smaller one, read as before, and the new one. -/
theorem Sound.add_cases (hs : h.Sound first) (hr : Numbered first (h.add m).mobs.size r) :
    (Numbered first h.mobs.size r ∧ ∀ {β : Type} (default : β) (get : Mob → β),
        (h.add m).read r default get = h.read r default get) ∨
      (r = h.nextRef ∧ ∀ {β : Type} (default : β) (get : Mob → β), (h.add m).read r default get = get m) := by
  rw [size_add, numbered_succ, ← hs.next] at hr
  rcases hr with hr | rfl
  · exact .inl ⟨hr, fun _ _ => read_add_of_lt hr.1⟩
  · exact .inr ⟨rfl, fun _ _ => read_add_nextRef⟩

/-- A new mob that has nothing to do with the others. -/
theorem Sound.add (hs : h.Sound first) (hroom : h.mobs.size + 1 < UInt32.size) (hvehicle : m.vehicle = none)
    (hpassengers : m.passengers = []) : (h.add m).Sound first := by
  have hold : ∀ {r}, Numbered first h.mobs.size r → Numbered first (h.add m).mobs.size r := fun hr => by
    rw [size_add]
    exact numbered_succ.mpr (.inl hr)
  -- a rider is not new, and neither is what it rides
  have hrider : ∀ {r v}, Numbered first (h.add m).mobs.size r → (h.add m).vehicleOf r = some v →
      Numbered first h.mobs.size r ∧ Numbered first h.mobs.size v ∧ h.vehicleOf r = some v := by
    intro r v hr hv
    rcases hs.add_cases hr with ⟨hr, hread⟩ | ⟨-, hread⟩
    · rw [vehicleOf, hread] at hv
      exact ⟨hr, hs.linked.vehicle_mem hr hv, hv⟩
    · rw [vehicleOf, hread, hvehicle] at hv
      cases hv
  have hlisted : ∀ {v}, Numbered first (h.add m).mobs.size v →
      (h.add m).passengersOf v = [] ∨ Numbered first h.mobs.size v ∧ (h.add m).passengersOf v = h.passengersOf v := by
    intro v hv
    rcases hs.add_cases hv with ⟨hv, hread⟩ | ⟨-, hread⟩
    · exact .inr ⟨hv, hread _ _⟩
    · exact .inl ((hread _ _).trans hpassengers)
  refine ⟨by rwa [size_add], ?_, ⟨Numbered.eq_of_slot, Numbered.eq_of_id (by rwa [size_add]), fun hr => hr.1, ?_, ?_, ?_,
    ?_⟩, ?_, ?_, ?_, ?_, fun r hr => hold (hs.members r hr), hs.faithful⟩
  · rw [size_add, UInt32.ofNat_add, ← UInt32.add_assoc, ← hs.next]
    rfl
  · exact fun hr hv => hold (hrider hr hv).2.1
  · intro v r hv hr
    rcases hlisted hv with hnil | ⟨hv, heq⟩
    · rw [hnil] at hr
      cases hr
    · exact hold (hs.linked.passengers_mem hv (heq ▸ hr))
  · intro r v hr hv
    constructor
    · intro hriding
      obtain ⟨hr', hv', hriding⟩ := hrider hr hriding
      rw [passengersOf, read_add_of_lt hv'.1]
      exact (hs.linked.linked hr' hv').mp hriding
    · intro hmem
      rcases hlisted hv with hnil | ⟨hv', heq⟩
      · rw [hnil] at hmem
        cases hmem
      · rw [heq] at hmem
        have hr' := hs.linked.passengers_mem hv' hmem
        rw [vehicleOf, read_add_of_lt hr'.1]
        exact (hs.linked.linked hr' hv').mpr hmem
  · intro v hv
    rcases hlisted hv with hnil | ⟨hv, heq⟩
    · rw [hnil]
      exact List.nodup_nil
    · rw [heq]
      exact hs.linked.nodup hv
  · intro r v hr hv
    obtain ⟨hr', hv', hriding⟩ := hrider hr hv
    exact (read_add_of_lt hv'.1).trans (hs.flat hr' hriding)
  · intro v hv hgone
    rcases hlisted hv with hnil | ⟨hv', heq⟩
    · exact hnil
    · rw [isRemoved, read_add_of_lt hv'.1] at hgone
      rw [heq]
      exact hs.gone hv' hgone
  · intro r v hr hv
    obtain ⟨hr', hv', hriding⟩ := hrider hr hv
    rw [positionOf, positionOf, read_add_of_lt hr'.1, read_add_of_lt hv'.1]
    exact hs.together hr' hriding
  · intro r v hr hv
    obtain ⟨hr', -, hriding⟩ := hrider hr hv
    exact hs.ridden hr' hriding

end Add

/-! ## Tracking and mounting -/

/-- The same mobs, others of them tracked. -/
theorem Sound.withTracked (hs : h.Sound first) {t : Tracked MobRef UInt32}
    (hridden : ∀ {r v}, Numbered first h.mobs.size r → h.vehicleOf r = some v → v ∈ t.toList)
    (hmembers : ∀ r ∈ t.toList, Numbered first h.mobs.size r) (hfaithful : t.Faithful) :
    Sound first { h with tracked := t } where
  room := hs.room
  next := hs.next
  linked := ⟨hs.linked.slots, hs.linked.ids, hs.linked.kept, hs.linked.vehicle_mem, hs.linked.passengers_mem,
    hs.linked.linked, hs.linked.nodup⟩
  flat := hs.flat
  gone := hs.gone
  together := hs.together
  ridden := hridden
  members := hmembers
  faithful := hfaithful

/-- Whoever is tracked is there, and nobody else is affected. -/
theorem Sound.track (hs : h.Sound first) (hr : Numbered first h.mobs.size r) :
    (h.track r).2.Sound first ∧ r ∈ (h.track r).2.tracked.toList := by
  refine ⟨hs.withTracked (fun hq hv => Tracked.mem_insert_of_mem (hs.ridden hq hv)) (fun q hq => ?_)
    (hs.faithful.insert r), ?_⟩
  · rcases Tracked.mem_of_mem_insert hq with hq | rfl
    · exact hs.members q hq
    · exact hr
  · exact hs.faithful.mem_insert_self fun q hq hid => (hs.members q hq).eq_of_id hs.room hr hid

/-- A mob that rides nothing and carries nobody is put on one that is tracked, rides nothing, has not gone and is at the
same place. -/
theorem Sound.mounted (hs : h.Sound first) (hd : h.Mounted h' (Numbered first h.mobs.size) r v)
    (hr : Numbered first h.mobs.size r) (hv : Numbered first h.mobs.size v) (hne : r ≠ v)
    (hafoot : h.vehicleOf r = none) (hcarrying : h.passengersOf r = []) (hflat : h.vehicleOf v = none)
    (hthere : h.isRemoved v = false) (htracked : v ∈ h.tracked.toList) (hplace : h.positionOf r = h.positionOf v) :
    h'.Sound first := by
  have hsize := hd.size
  -- who rides afterwards
  have hrides : ∀ {q u}, Numbered first h.mobs.size q → h'.vehicleOf q = some u →
      (q = r ∧ u = v) ∨ h.vehicleOf q = some u := by
    intro q u hq hu
    rw [hd.vehicle q hq] at hu
    split at hu
    · rename_i heq
      exact .inl ⟨heq, (Option.some.inj hu).symm⟩
    · exact .inr hu
  refine ⟨hsize.symm ▸ hs.room, ?_, hsize.symm ▸ hd.linked hs.linked hr hv hafoot, ?_, ?_, ?_, ?_, ?_, ?_⟩
  · rw [hsize, hd.nextId]
    exact hs.next
  · rw [hsize]
    intro q u hq hu
    rcases hrides hq hu with ⟨-, rfl⟩ | hold
    · rw [hd.vehicle u hv, if_neg hne.symm]
      exact hflat
    · have hu' := hs.linked.vehicle_mem hq hold
      have hur : u ≠ r := by
        rintro rfl
        have hmem := (hs.linked.linked hq hu').mp hold
        rw [hcarrying] at hmem
        cases hmem
      rw [hd.vehicle u hu', if_neg hur]
      exact hs.flat hq hold
  · rw [hsize]
    intro u hu hgone
    rw [hd.removed u hu] at hgone
    have huv : u ≠ v := by
      rintro rfl
      rw [hthere] at hgone
      cases hgone
    rw [hd.passengers u hu, if_neg huv]
    exact hs.gone hu hgone
  · rw [hsize]
    intro q u hq hu
    rcases hrides hq hu with ⟨rfl, rfl⟩ | hu
    · rw [hd.position q hq, hd.position u hv]
      exact hplace
    · rw [hd.position q hq, hd.position u (hs.linked.vehicle_mem hq hu)]
      exact hs.together hq hu
  · rw [hsize, hd.tracked]
    intro q u hq hu
    rcases hrides hq hu with ⟨-, rfl⟩ | hu
    · exact htracked
    · exact hs.ridden hq hu
  · rw [hsize, hd.tracked]
    exact hs.members
  · rw [hd.tracked]
    exact hs.faithful

/-! ## What the operations do -/

/-- What is known of a mob that has just been added. -/
theorem read_spawned {position : Position} {lifetime : UInt32} {seed : UInt64} :
    let h' := h.add (Mob.spawn position lifetime seed)
    h'.vehicleOf h.nextRef = none ∧ h'.passengersOf h.nextRef = [] ∧ h'.isRemoved h.nextRef = false ∧
      h'.positionOf h.nextRef = some position :=
  ⟨read_add_nextRef, read_add_nextRef, read_add_nextRef, read_add_nextRef⟩

theorem Sound.numbered_nextRef (hs : h.Sound first) (m : Mob) : Numbered first (h.add m).mobs.size h.nextRef := by
  rw [size_add, nextRef, hs.next]
  exact numbered_succ.mpr (.inr rfl)

theorem size_settle (h : Herd) (d : Draft) :
    (h.settle d).2.mobs.size = h.mobs.size + if d.riderSeed.isSome then 2 else 1 := by
  obtain ⟨position, lifetime, seed, _ | riderSeed⟩ := d
  · exact size_add
  · let h₁ := h.add (Mob.spawn position lifetime seed)
    let h₂ := h₁.add (Mob.spawn position riderLifetime riderSeed)
    have hsize : (h.settle ⟨position, lifetime, seed, some riderSeed⟩).2.mobs.size =
        (h₂.mount h₁.nextRef h.nextRef).mobs.size := rfl
    rw [hsize, Herd.mount, size_update, size_update, size_add, size_add]
    rfl

/-- A draft settles a mob, with or without a rider. -/
theorem Sound.settle (hs : h.Sound first) (d : Draft) (hroom : (h.settle d).2.mobs.size < UInt32.size) :
    (h.settle d).2.Sound first := by
  obtain ⟨position, lifetime, seed, _ | riderSeed⟩ := d
  · have hsettle : (h.settle ⟨position, lifetime, seed, none⟩).2 =
        ((h.add (Mob.spawn position lifetime seed)).track h.nextRef).2 := rfl
    rw [size_settle] at hroom
    rw [hsettle]
    have hadd : (h.add (Mob.spawn position lifetime seed)).Sound first := hs.add hroom rfl rfl
    exact (hadd.track (hs.numbered_nextRef _)).1
  · let h₁ := h.add (Mob.spawn position lifetime seed)
    let h₂ := h₁.add (Mob.spawn position riderLifetime riderSeed)
    let h₃ := (h₂.track h₁.nextRef).2
    let h₄ := (h₃.track h.nextRef).2
    -- to be tracked and to be mounted have nothing to do with one another
    have hsettle : (h.settle ⟨position, lifetime, seed, some riderSeed⟩).2 = h₄.mount h₁.nextRef h.nextRef := rfl
    have hsize₁ : h₁.mobs.size = h.mobs.size + 1 := size_add
    rw [size_settle] at hroom
    have hs₁ : h₁.Sound first := hs.add (Nat.lt_of_succ_lt hroom) rfl rfl
    have hs₂ : h₂.Sound first := hs₁.add (hsize₁.symm ▸ hroom) rfl rfl
    have hrider : Numbered first h₂.mobs.size h₁.nextRef := hs₁.numbered_nextRef _
    have hmob : Numbered first h₂.mobs.size h.nextRef := by
      rw [size_add]
      exact numbered_succ.mpr (.inl (hs.numbered_nextRef _))
    obtain ⟨hs₃, -⟩ := hs₂.track hrider
    obtain ⟨hs₄, htracked⟩ := hs₃.track hmob
    obtain ⟨hriding, hcarrying, -, hplace⟩ := @read_spawned h₁ position riderLifetime riderSeed
    obtain ⟨hflat, -, hthere, hplace'⟩ := @read_spawned h position lifetime seed
    have hkept : h.nextRef.slot < h₁.mobs.size := hsize₁ ▸ Nat.lt_succ_self _
    have hne : h₁.nextRef ≠ h.nextRef := fun heq => by
      have hslot : h₁.mobs.size = h.mobs.size := congrArg MobRef.slot heq
      rw [hsize₁] at hslot
      exact Nat.succ_ne_self _ hslot
    rw [hsettle]
    refine hs₄.mounted (hs₄.linked.mount hrider hmob) hrider hmob hne hriding hcarrying ?_ ?_ htracked ?_
    · exact (read_add_of_lt hkept).trans hflat
    · exact (read_add_of_lt hkept).trans hthere
    · exact hplace.trans ((read_add_of_lt hkept).trans hplace').symm

section Spawn

variable {γ : Type} [WordSource γ] {centers : Array Cell} {count added : Nat} {g : γ}

theorem spawnMany_succ : (Synthetic.spawnMany centers (count + 1) added h g).2.1 =
    (Synthetic.spawnMany centers count (added + (h.settle (drawDraft centers g).1).1)
      (h.settle (drawDraft centers g).1).2 (drawDraft centers g).2).2.1 := rfl

theorem size_spawnMany_le : h.mobs.size ≤ (Synthetic.spawnMany centers count added h g).2.1.mobs.size := by
  induction count generalizing added h g with
  | zero => exact le_refl _
  | succ count ih =>
    rw [spawnMany_succ]
    refine le_trans ?_ ih
    rw [size_settle]
    exact Nat.le_add_right _ _

theorem Sound.spawnMany (hs : h.Sound first)
    (hroom : (Synthetic.spawnMany centers count added h g).2.1.mobs.size < UInt32.size) :
    (Synthetic.spawnMany centers count added h g).2.1.Sound first := by
  induction count generalizing added h g with
  | zero => exact hs
  | succ count ih =>
    rw [spawnMany_succ] at hroom ⊢
    exact ih (hs.settle _ (size_spawnMany_le.trans_lt hroom)) hroom

theorem Sound.spawnBatch (hs : h.Sound first)
    (hroom : (Synthetic.spawnBatch centers count h g).2.1.mobs.size < UInt32.size) :
    (Synthetic.spawnBatch centers count h g).2.1.Sound first := by
  rw [Synthetic.spawnBatch] at hroom ⊢
  split at hroom
  · rwa [if_pos ‹_›]
  · rw [if_neg ‹_›]
    exact hs.spawnMany hroom

end Spawn

/-- Whoever has gone carries nobody, so nobody's vehicle is dropped. -/
theorem Sound.reap (hs : h.Sound first) : h.reap.2.Sound first := by
  obtain ⟨hfaithful, hmem⟩ := hs.faithful.removeAll (h.tracked.toList.filter h.isRemoved)
  refine hs.withTracked (fun {r v} hr hv => ?_) (fun r hr => hs.members r ((hmem r).mp hr).1) hfaithful
  have hv' := hs.linked.vehicle_mem hr hv
  refine (hmem v).mpr ⟨hs.ridden hr hv, fun u hu hid => ?_⟩
  obtain ⟨hu, hgone⟩ := List.mem_filter.mp hu
  have hlisted := (hs.linked.linked hr hv').mp hv
  rw [(hs.members u hu).eq_of_id hs.room hv' hid.symm] at hgone
  rw [hs.gone hv' hgone] at hlisted
  cases hlisted

/-- Nobody who has gone is tracked any more. -/
theorem Sound.there_reap (hs : h.Sound first) (hr : r ∈ h.reap.2.tracked.toList) : h.isRemoved r = false := by
  obtain ⟨-, hmem⟩ := hs.faithful.removeAll (h.tracked.toList.filter h.isRemoved)
  obtain ⟨hr, hothers⟩ := (hmem r).mp hr
  refine Bool.eq_false_iff.mpr fun hgone => hothers r (List.mem_filter.mpr ⟨hr, hgone⟩) rfl

/-! ## What happens in a tick -/

/-- One thing that happens to a herd in a tick, if anything does.  Only a mob that rides nothing is ticked. -/
def Happens (h h' : Herd) (crowd : MobRef → Prop) : Prop :=
  h' = h ∨ ∃ r, crowd r ∧
    (h.Despawned h' crowd r ∨ h.Dismounted h' crowd r ∨ h.vehicleOf r = none ∧ h.Carried h' crowd r)

/-- Nobody is put on anything. -/
theorem Sound.of_cleared (hs : h.Sound first) (hsame : SameMobs h h' (Numbered first h.mobs.size))
    (hlinked : h'.Linked (Numbered first h.mobs.size))
    (hrides : ∀ {r v}, Numbered first h.mobs.size r → h'.vehicleOf r = some v → h.vehicleOf r = some v)
    (hgone : ∀ {v}, Numbered first h.mobs.size v → h'.isRemoved v = true → h'.passengersOf v = [])
    (htogether : ∀ {r v}, Numbered first h.mobs.size r → h'.vehicleOf r = some v → h'.positionOf r = h'.positionOf v) :
    h'.Sound first := by
  have hsize := hsame.size
  refine ⟨hsize.symm ▸ hs.room, ?_, hsize.symm ▸ hlinked, ?_, hsize.symm ▸ hgone, hsize.symm ▸ htogether, ?_, ?_, ?_⟩
  · rw [hsize, hsame.nextId]
    exact hs.next
  · rw [hsize]
    intro r v hr hv
    have hv' := hs.linked.vehicle_mem hr (hrides hr hv)
    cases hvehicle : h'.vehicleOf v with
    | none => rfl
    | some u =>
      have hflat := hs.flat hr (hrides hr hv)
      rw [hrides hv' hvehicle] at hflat
      cases hflat
  · rw [hsize, hsame.tracked]
    exact fun hr hv => hs.ridden hr (hrides hr hv)
  · rw [hsize, hsame.tracked]
    exact hs.members
  · rw [hsame.tracked]
    exact hs.faithful

theorem Sound.despawned (hs : h.Sound first) (hd : h.Despawned h' (Numbered first h.mobs.size) r) :
    h'.Sound first := by
  have hrides : ∀ {q u}, Numbered first h.mobs.size q → h'.vehicleOf q = some u → h.vehicleOf q = some u := by
    intro q u hq hu
    rw [hd.vehicle q hq] at hu
    split at hu
    · cases hu
    · exact hu
  refine hs.of_cleared hd.toSameMobs (hd.linked hs.linked) hrides (fun {q} hq hgone => ?_) fun {q u} hq hu => ?_
  · rw [hd.passengers q hq]
    split
    · rfl
    · rename_i hne
      exact hs.gone hq (((hd.removed q hq).mp hgone).resolve_left hne)
  · have hold := hrides hq hu
    rw [hd.position q hq, hd.position u (hs.linked.vehicle_mem hq hold)]
    exact hs.together hq hold

theorem Sound.dismounted (hs : h.Sound first) (hd : h.Dismounted h' (Numbered first h.mobs.size) r) :
    h'.Sound first := by
  have hrides : ∀ {q u}, Numbered first h.mobs.size q → h'.vehicleOf q = some u → h.vehicleOf q = some u := by
    intro q u hq hu
    rw [hd.vehicle q hq] at hu
    split at hu
    · cases hu
    · exact hu
  refine hs.of_cleared hd.toSameMobs (hd.linked hs.linked) hrides (fun {q} hq hgone => ?_) fun {q u} hq hu => ?_
  · rw [hd.removed q hq] at hgone
    rw [hd.passengers q hq, hs.gone hq hgone, List.filter_nil]
  · have hold := hrides hq hu
    rw [hd.position q hq, hd.position u (hs.linked.vehicle_mem hq hold)]
    exact hs.together hq hold

/-- A mob that rides nothing takes its riders along. -/
theorem Sound.carried (hs : h.Sound first) (hr : h.vehicleOf r = none)
    (hd : h.Carried h' (Numbered first h.mobs.size) r) : h'.Sound first := by
  refine hs.of_cleared hd.toSameMobs (hd.linked hs.linked) (fun {q u} hq hu => hd.vehicle q hq ▸ hu)
    (fun {q} hq hgone => ?_) fun {q u} hq hu => ?_
  · rw [hd.removed q hq] at hgone
    rw [hd.passengers q hq]
    exact hs.gone hq hgone
  · rw [hd.vehicle q hq] at hu
    by_cases hur : u = r
    · subst hur
      exact hd.along q hq hu
    · -- neither the rider nor what it rides is touched
      have hu' := hs.linked.vehicle_mem hq hu
      have hqr : q ≠ r := by
        rintro rfl
        rw [hr] at hu
        cases hu
      have hother : h.vehicleOf q ≠ some r := fun heq => hur (Option.some.inj (hu.symm.trans heq))
      have hflat : h.vehicleOf u ≠ some r := by
        rw [hs.flat hq hu]
        nofun
      rw [hd.position q hq hqr hother, hd.position u hu' hur hflat]
      exact hs.together hq hu

theorem Sound.happens (hs : h.Sound first) (hd : h.Happens h' (Numbered first h.mobs.size)) :
    h'.Sound first ∧ SameMobs h h' (Numbered first h.mobs.size) ∧
      ∀ q, Numbered first h.mobs.size q → h.vehicleOf q = none → h'.vehicleOf q = none := by
  rcases hd with rfl | ⟨r, hr, hd | hd | ⟨hriding, hd⟩⟩
  · exact ⟨hs, ⟨rfl, rfl, rfl, fun _ _ => rfl⟩, fun _ _ hnone => hnone⟩
  · refine ⟨hs.despawned hd, hd.toSameMobs, fun q hq hnone => ?_⟩
    rw [hd.vehicle q hq, hnone, ite_self]
  · refine ⟨hs.dismounted hd, hd.toSameMobs, fun q hq hnone => ?_⟩
    rw [hd.vehicle q hq, hnone, ite_self]
  · exact ⟨hs.carried hriding hd, hd.toSameMobs, fun q hq hnone => (hd.vehicle q hq).trans hnone⟩

end Herd

/-! ## A tick -/

/-- The herd stays sound, nobody new is tracked, and nobody is put on anything. -/
def ridingTerms (first : UInt32) (start : State) : Terms State Key MobRef where
  holds s _ := s.herd.Sound first ∧ s.herd.mobs.size = start.herd.mobs.size ∧ s.herd.tracked = start.herd.tracked
  may _ s s' := ∀ r, Numbered first start.herd.mobs.size r → s.herd.vehicleOf r = none → s'.herd.vehicleOf r = none
  idle _ _ _ _ hs := hs

section Tick

variable {first : UInt32} {start : State} {o : Origin} {r v : MobRef}

/-- A call with which one thing happens to the herd. -/
theorem serves_happening {c : Call Key MobRef} {P : State → Prop} {Q : c.Answer → State → Prop}
    (h : ∀ s : State, s.herd.Sound first → s.herd.mobs.size = start.herd.mobs.size → P s →
      ∃ a s', world.answer c s = (.ok a, s') ∧ s.herd.Happens s'.herd (Numbered first s.herd.mobs.size) ∧ Q a s') :
    world.Serves (ridingTerms first start) o c P Q := by
  rintro s H ⟨hs, hsize, htracked⟩ hP
  obtain ⟨a, s', hans, hhappens, hQ⟩ := h s hs hsize hP
  obtain ⟨hs', hsame, hcleared⟩ := hs.happens hhappens
  exact ⟨a, s', hans, ⟨hs', hsame.size.trans hsize, hsame.tracked.trans htracked⟩, fun r hr =>
    hcleared r (hsize.symm ▸ hr), hQ⟩

theorem lasts_notRiding (hr : Numbered first start.herd.mobs.size r) (p : Option Nat) :
    (ridingTerms first start).Lasts p fun s => s.herd.vehicleOf r = none :=
  fun _ _ _ _ _ _ hmay hnone => hmay r hr hnone

/-- A call that reads. -/
theorem serves_reading {c : Call Key MobRef} (hc : ∀ s, ∃ a, world.answer c s = (.ok a, s)) {P : State → Prop} :
    world.Serves (ridingTerms first start) o c P fun _ => P :=
  serves_happening fun s _ _ hP => (hc s).imp fun _ hans => ⟨s, hans, .inl rfl, hP⟩

theorem lasts_everything (p : Option Nat) : (ridingTerms first start).Lasts p fun _ => True := .const _ _ _

/-- A call after which nothing need be known. -/
theorem keeps_reading {c : Call Key MobRef} (hc : ∀ s, ∃ a, world.answer c s = (.ok a, s)) {P : State → Prop}
    {Q : c.Answer → State → Prop} (hQ : ∀ a s, Q a s) :
    (Program.call c).Keeps world (ridingTerms first start) o P Q :=
  ((Program.Keeps.call (fun _ => lasts_everything _) (serves_reading hc)).post fun a s _ _ _ => hQ a s).pre
    fun _ _ _ _ => trivial

/-- A contract ticks a mob only if it rides nothing, and the others do not put it on anything. -/
theorem contract_keeps_riding (hr : Numbered first start.herd.mobs.size r) :
    (Program.contract r).Keeps world (ridingTerms first start) o (fun _ => True) fun _ _ => True := by
  have hlasts := lasts_notRiding hr o.place?
  refine Program.contract_keeps (fun _ => True) (fun _ => True) (fun _ => True) (fun s => s.herd.vehicleOf r = none)
    (fun _ => True) (fun _ _ => True) ?_ ?_ ?_ ?_ ?_ ?_ ?_
  · -- it is asked whether it has gone
    exact keeps_reading (fun _ => ⟨_, rfl⟩) (by simp)
  · -- it is asked whether it is frozen
    exact keeps_reading (fun _ => ⟨_, rfl⟩) (by simp)
  · -- it may despawn
    refine .call (fun _ => lasts_everything _) (serves_happening fun s hs hsize _ => ?_)
    refine ⟨(), { s with herd := s.herd.checkDespawn r }, rfl, ?_, trivial⟩
    rcases hs.linked.checkDespawn (hsize.symm ▸ hr) with ⟨hsame, -⟩ | ⟨-, -, hd⟩
    · exact .inl hsame
    · exact .inr ⟨r, hsize.symm ▸ hr, .inl hd⟩
  · -- it names its vehicle
    refine (Program.Keeps.call (R := fun v s => v = none → s.herd.vehicleOf r = none) (fun v => ?_) ?_).post ?_
    · exact fun q s s' H hq hs hmay hknown hnone => hlasts q s s' H hq hs hmay (hknown hnone)
    · exact serves_happening fun s _ _ _ => ⟨s.herd.vehicleOf r, s, rfl, .inl rfl, id⟩
    · rintro (_ | v) s H - hknown
      · exact hknown rfl
      · trivial
  · -- the vehicle is asked whether it carries it
    refine fun v => (keeps_reading (fun _ => ⟨_, rfl⟩) (fun _ _ => trivial)).bind fun gone => ?_
    cases gone with
    | true => exact .done (by simp)
    | false => exact keeps_reading (fun _ => ⟨_, rfl⟩) (by simp)
  · -- it gets off
    refine .call (fun _ => hlasts) (serves_happening fun s hs hsize _ => ?_)
    have hd := hs.linked.stopRiding (hsize.symm ▸ hr)
    refine ⟨(), { s with herd := s.herd.stopRiding r }, rfl, .inr ⟨r, hsize.symm ▸ hr, .inr (.inl hd)⟩, ?_⟩
    exact (hd.vehicle r (hsize.symm ▸ hr)).trans (if_pos rfl)
  · -- it is ticked
    refine .call (fun _ => lasts_everything _) (serves_happening fun s hs hsize hnone => ?_)
    have hself : s.herd.vehicleOf r ≠ some r := by
      rw [hnone]
      nofun
    refine ⟨(), s.tickEntity r, rfl, .inr ⟨r, hsize.symm ▸ hr, .inr (.inr ⟨hnone, ?_⟩)⟩, trivial⟩
    exact (hs.linked.tickMob (hsize.symm ▸ hr) hself).2

/-- A tick keeps the herd sound, whoever takes turns with whom. -/
theorem tick_sound {s : State} (hs : s.herd.Sound first) (enable : Bool) (plan : Plan) (turn : Turn Key) :
    (tick world enable plan turn s).state.herd.Sound first ∧
      (tick world enable plan turn s).state.herd.mobs.size = s.herd.mobs.size := by
  have hchunks : ∀ o, ChunkTerms world (ridingTerms first s) turn.settings.randomTickSpeed o (fun _ => True)
      fun _ => True := by
    refine fun o => ⟨lasts_everything _, fun k => ?_, fun k _ => ?_⟩
    · exact serves_happening fun s _ _ _ => ⟨_, s, rfl, .inl rfl, fun _ _ => trivial, trivial⟩
    · exact serves_happening fun s _ _ _ => ⟨_, _, rfl, .inl rfl, trivial⟩
  have hterms : TickTerms world (ridingTerms first s) enable turn s (fun _ => True) (fun _ _ => True)
      fun _ _ => True := by
    refine ⟨hchunks, fun _ _ => trivial, fun o => ?_, fun _ => lasts_everything _,
      fun _ s' H hs' _ => congrArg Tracked.toList hs'.2.2, ⟨hs, rfl, rfl⟩, fun _ => trivial⟩
    refine Program.offerAll_keeps (K := fun _ _ => True) fun r rest hsuffix => contract_keeps_riding (hs.members r ?_)
    exact List.mem_of_mem_filter (hsuffix.subset (List.mem_cons_self ..))
  obtain ⟨-, -, ⟨hs', hsize, -⟩, -⟩ := tick_keeps hterms plan
  exact ⟨hs', hsize⟩

end Tick

/-! ## Every world there is -/

/-- Handles of all mobs that were ever kept. -/
def handles (first : UInt32) (n : Nat) : List MobRef := (List.range n).map fun i => ⟨i, first + UInt32.ofNat i⟩

theorem mem_handles {first : UInt32} {n : Nat} {r : MobRef} : r ∈ handles first n ↔ Numbered first n r := by
  obtain ⟨slot, id⟩ := r
  simp only [handles, List.mem_map, List.mem_range, MobRef.mk.injEq, Numbered]
  constructor
  · rintro ⟨i, hi, rfl, rfl⟩
    exact ⟨hi, rfl⟩
  · rintro ⟨hslot, rfl⟩
    exact ⟨slot, hslot, rfl, rfl⟩

/-- What spawning, reaping and ticking may lead to, in any order, when fewer than `2^32` numbers are handed out from
`first` on.  The players may move, and chunks may come and go, as they like. -/
inductive Reached (first : UInt32) : State → Prop
  | start {players : Nat} {spread : Float} {seed : UInt64} {s : State}
      (h : State.ofPlayers players spread seed first = .ok s) : Reached first s
  | spawned {s : State} (h : Reached first s) {γ : Type} [WordSource γ] (centers : Array Cell) (count : Nat) (g : γ)
      (hnumbers : (spawnBatch centers count s.herd g).2.1.mobs.size < UInt32.size) :
    Reached first { s with herd := (spawnBatch centers count s.herd g).2.1 }
  | reaped {s : State} (h : Reached first s) : Reached first s.reap.2
  | ticked {s : State} (h : Reached first s) (enable : Bool) (plan : Plan) (turn : Turn Key) :
    Reached first (tick world enable plan turn s).state
  | elsewhere {s : State} (h : Reached first s) (chunks : ChunkTable) (players : List Position) (source : ChaCha) :
    Reached first { s with chunks, players, source }

theorem herd_ofPlayers {players : Nat} {spread : Float} {seed : UInt64} {nextId : UInt32} {s : State}
    (h : State.ofPlayers players spread seed nextId = .ok s) : s.herd = Herd.empty nextId := by
  unfold State.ofPlayers at h
  dsimp only at h
  split at h
  · cases h
  · cases h
    rfl

theorem Reached.sound {first : UInt32} {s : State} (h : Reached first s) : s.herd.Sound first := by
  induction h with
  | start h =>
    rw [herd_ofPlayers h]
    exact Herd.sound_empty first
  | spawned _ _ _ _ hnumbers ih => exact ih.spawnBatch hnumbers
  | reaped _ ih => exact ih.reap
  | ticked _ enable plan turn ih => exact (tick_sound ih enable plan turn).1
  | elsewhere _ _ _ _ ih => exact ih

/-- Riders and vehicles among some mobs: a mob rides what lists it, nobody is listed twice, what is ridden is tracked,
what has gone carries nobody, a rider is where its vehicle is, and no batch parts the two. -/
structure Paired (s : State) (mobs : List MobRef) : Prop where
  tracked : ∀ r ∈ s.herd.tracked.toList, r ∈ mobs
  links : ∀ r ∈ mobs, ∀ v ∈ mobs, (s.herd.vehicleOf r = some v ↔ s.herd.lists v r = true)
  vehicles : ∀ r ∈ mobs, ∀ v, s.herd.vehicleOf r = some v → v ∈ mobs ∧ v ∈ s.herd.tracked.toList
  once : ((mobs.flatMap s.herd.passengersOf).map MobRef.id).Nodup
  gone : ∀ v ∈ mobs, s.herd.isRemoved v = true → s.herd.passengersOf v = []
  together : ∀ r ∈ mobs, ∀ v, s.herd.vehicleOf r = some v → s.herd.positionOf r = s.herd.positionOf v
  batched : ∀ (agents : List Cell) (view : UInt32), ∀ r ∈ s.herd.tracked.toList, ∀ v,
    s.herd.vehicleOf r = some v →
    let batch := buildBatch s.herd.cellOf s.herd.tracked.toList agents view
    (∃ region ∈ batch.regions.toList, r ∈ region.entities.toList ∧ v ∈ region.entities.toList) ∨
      r ∈ batch.unassigned.toList ∧ v ∈ batch.unassigned.toList

/-- Entities at one cell are put into one region, or both outside all regions. -/
theorem buildBatch_together {E : Type} {cellOf : E → Cell} {tracked : List E} {r v : E} (hr : r ∈ tracked)
    (hv : v ∈ tracked) (hcell : cellOf r = cellOf v) (agents : List Cell) (view : UInt32) :
    let batch := buildBatch cellOf tracked agents view
    (∃ region ∈ batch.regions.toList, r ∈ region.entities.toList ∧ v ∈ region.entities.toList) ∨
      r ∈ batch.unassigned.toList ∧ v ∈ batch.unassigned.toList := by
  intro batch
  have hsame : goesTo cellOf agents view r = goesTo cellOf agents view v := by
    simp only [goesTo, Batch.destination, hcell]
  rcases List.mem_append.mp (buildBatch_contents.symm.subset hr : r ∈ batch.contents) with hmem | hmem
  · refine .inr ⟨hmem, ?_⟩
    rw [buildBatch_unassigned, List.mem_filter, hsame] at hmem
    rw [buildBatch_unassigned, List.mem_filter]
    exact ⟨hv, hmem.2⟩
  · obtain ⟨region, hregion, hmem⟩ := List.mem_flatMap.mp hmem
    refine .inl ⟨region, hregion, hmem, ?_⟩
    obtain ⟨i, hi⟩ := List.mem_iff_getElem?.mp hregion
    rw [Array.getElem?_toList] at hi
    rw [buildBatch_entities hi, List.mem_filter, hsame] at hmem
    rw [buildBatch_entities hi, List.mem_filter]
    exact ⟨hv, hmem.2⟩

theorem handles_nodup (first : UInt32) (n : Nat) : (handles first n).Nodup :=
  List.nodup_range.map fun _ _ h => congrArg MobRef.slot h

/-- In a linked crowd nobody is listed twice. -/
theorem Herd.Linked.passengers_once {h : Herd} {crowd : MobRef → Prop} (hl : h.Linked crowd) {mobs : List MobRef}
    (hnodup : mobs.Nodup) (hmobs : ∀ r ∈ mobs, crowd r) : ((mobs.flatMap h.passengersOf).map MobRef.id).Nodup := by
  have hriders : ∀ r ∈ mobs.flatMap h.passengersOf, crowd r := fun r hr => by
    obtain ⟨v, hv, hr⟩ := List.mem_flatMap.mp hr
    exact hl.passengers_mem (hmobs v hv) hr
  refine (List.nodup_flatMap.mpr ⟨fun v hv => hl.nodup (hmobs v hv), ?_⟩).map_on fun a ha b hb =>
    hl.ids (hriders a ha) (hriders b hb)
  -- whoever is listed by two names both as what it rides
  refine hnodup.imp_of_mem fun {u v} hu hv hne r hru hrv => hne ?_
  have hr := hl.passengers_mem (hmobs u hu) hru
  exact Option.some.inj (((hl.linked hr (hmobs u hu)).mpr hru).symm.trans ((hl.linked hr (hmobs v hv)).mpr hrv))

/-- In every world that is reached, riders and vehicles are paired. -/
theorem reached_paired {first : UInt32} {s : State} (h : Reached first s) :
    Paired s (handles first s.herd.mobs.size) := by
  have hs := h.sound
  have hl := hs.linked
  refine ⟨fun r hr => mem_handles.mpr (hs.members r hr), fun r hr v hv => ?_, fun r hr v hv => ?_, ?_, fun v hv => ?_,
    fun r hr v hv => ?_, fun agents view r hr v hv => ?_⟩
  · rw [mem_handles] at hr hv
    rw [hl.linked hr hv, hl.lists_iff_mem hr hv]
  · rw [mem_handles] at hr
    exact ⟨mem_handles.mpr (hl.vehicle_mem hr hv), hs.ridden hr hv⟩
  · exact hs.linked.passengers_once (handles_nodup _ _) fun r hr => mem_handles.mp hr
  · exact hs.gone (mem_handles.mp hv)
  · exact hs.together (mem_handles.mp hr) hv
  · have hr' := hs.members r hr
    refine buildBatch_together hr (hs.ridden hr' hv) ?_ agents view
    rw [Herd.cellOf_eq, Herd.cellOf_eq, hs.together hr' hv]

/-- A world without players. -/
def State.vacant : State := ⟨∅, [], ChaCha.ofSeed 0, Herd.empty 0, 0, 0⟩

/-- The same with a mob, which has a rider. -/
def State.mounted : State :=
  { State.vacant with herd := (spawnBatch #[Cell.origin] 1 State.vacant.herd (ChaCha.ofSeed 6)).2.1 }

theorem reached_mounted : Reached 0 State.mounted := by
  have hvacant : Reached 0 State.vacant := .start (by rfl : State.ofPlayers 0 1.0 0 0 = .ok .vacant)
  exact .spawned hvacant _ _ _ (by decide +kernel)

/-- The same after a tick without regions. -/
def State.ridden : State := (tick world false .inOrder ⟨[Cell.origin], [], ⟨1, 3⟩, .unit⟩ .mounted).state

theorem reached_paired_ridden :
    let s := State.ridden.reap.2
    Reached 0 s ∧ Paired s (handles 0 s.herd.mobs.size) ∧ s.herd.vehicleOf ⟨1, 1⟩ = some ⟨0, 0⟩ ∧
      s.herd.ageOf ⟨1, 1⟩ = 1 := by
  intro s
  have hs : Reached 0 s := (Reached.ticked reached_mounted false .inOrder _).reaped
  exact ⟨hs, reached_paired hs, by decide +kernel, by decide +kernel⟩

end GridTick.Synthetic
