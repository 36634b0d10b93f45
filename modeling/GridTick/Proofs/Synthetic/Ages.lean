import GridTick.Proofs.Synthetic.Herd

/-!
# GridTick.Proofs.Synthetic.Ages — how a tick makes mobs older

A mob grows older when it is ticked, and when what it rides is ticked.  At any time during a tick it is as old as at the
start or one tick older; and a rider is older if and only if its vehicle has been ticked.

* `Herd.Peopled`: what a tick finds.
* `Herd.Aged`, `Herd.Since`: who is older, and what holds at any time during a tick.
* `Herd.Spared`: what is left alone of a mob when something happens to another.
* `Since.despawned`, `Since.carried`: a despawn and a tick of a mob keep all that.
* `Since.countP_carried`: a tick makes a mob and its riders older.
-/

namespace GridTick.Synthetic.Herd

/-- What a tick finds: links with two sides, and tracked mobs that are there, with all that they ride. -/
structure Peopled (h : Herd) (mobs : List MobRef) : Prop where
  nodup : mobs.Nodup
  linked : h.Linked (· ∈ mobs)
  members : ∀ r ∈ h.tracked.toList, r ∈ mobs
  once : h.tracked.toList.Nodup
  there : ∀ r ∈ h.tracked.toList, h.isRemoved r = false
  vehicles : ∀ r ∈ h.tracked.toList, ∀ v, h.vehicleOf r = some v → v ∈ h.tracked.toList

/-- A mob is one tick older than at the start. -/
def Aged (start h : Herd) (r : MobRef) : Prop := h.ageOf r = start.ageOf r + 1

instance (start h : Herd) (r : MobRef) : Decidable (start.Aged h r) := inferInstanceAs (Decidable (_ = _))

/-- What holds since the start of a tick.  A mob is at most one tick older, and rides what it rode unless that has gone;
what has gone carries nobody, and was due; a rider is older just if its vehicle, which rides nothing, is; and only tracked
mobs and their riders are older. -/
structure Since (start h : Herd) (mobs : List MobRef) : Prop extends SameMobs start h (· ∈ mobs) where
  linked : h.Linked (· ∈ mobs)
  age : ∀ r ∈ mobs, h.ageOf r = start.ageOf r ∨ start.Aged h r
  vehicle : ∀ r ∈ mobs, h.vehicleOf r = start.vehicleOf r ∨
    h.vehicleOf r = none ∧ ∀ v, start.vehicleOf r = some v → h.isRemoved v = true
  empty : ∀ v ∈ start.tracked.toList, h.isRemoved v = true → h.passengersOf v = []
  due : ∀ v ∈ start.tracked.toList, h.isRemoved v = true →
    start.Due v ∨ start.vehicleOf v ≠ none ∧ ¬ start.ageOf v + 1 < start.lifetimeOf v
  along : ∀ r ∈ mobs, ∀ v, h.vehicleOf r = some v → (start.Aged h r ↔ start.Aged h v ∧ h.vehicleOf v = none)
  tended : ∀ r ∈ mobs, start.Aged h r →
    r ∈ start.tracked.toList ∨ ∃ v ∈ start.tracked.toList, start.vehicleOf r = some v

/-- What is left alone of `r` when something happens to another mob: whether it has gone, and its age if it rides
nothing.  If it is set down then it is not older yet. -/
structure Spared (start h h' : Herd) (r : MobRef) : Prop where
  removed : h'.isRemoved r = h.isRemoved r
  afoot : h.vehicleOf r = none → h'.vehicleOf r = none ∧ h'.ageOf r = h.ageOf r
  down : h.vehicleOf r ≠ none → h'.vehicleOf r = none → ¬ start.Aged h' r

/-- A mob that has not been offered its tick: it is there, and has not been ticked on its own. -/
structure Pending (start h : Herd) (r : MobRef) : Prop where
  there : h.isRemoved r = false
  own : h.vehicleOf r = none → ¬ start.Aged h r

/-- A mob that rides nothing any more, and is older or not, for the rest of the tick. -/
def Afoot (start h : Herd) (r : MobRef) (φ : Prop) : Prop := h.vehicleOf r = none ∧ (start.Aged h r ↔ φ)

variable {start h h' : Herd} {mobs : List MobRef} {r v x : MobRef}

theorem not_aged (heq : h.ageOf r = start.ageOf r) : ¬ start.Aged h r := by
  rw [Aged, heq]
  exact fun hage => absurd (UInt32.left_eq_add.mp hage) (by decide)

theorem Peopled.since (hp : h.Peopled mobs) : h.Since h mobs where
  size := rfl
  tracked := rfl
  nextId := rfl
  lifetime _ _ := rfl
  linked := hp.linked
  age _ _ := .inl rfl
  vehicle _ _ := .inl rfl
  empty v hv hgone := by
    rw [hp.there v hv] at hgone
    cases hgone
  due v hv hgone := by
    rw [hp.there v hv] at hgone
    cases hgone
  along _ _ _ _ := iff_of_false (not_aged rfl) fun haged => not_aged rfl haged.1
  tended _ _ haged := absurd haged (not_aged rfl)

/-- Ages make no difference to what a tick finds. -/
theorem Peopled.withAge (hp : h.Peopled mobs) (r : MobRef) (age : UInt32) :
    (h.update r fun m => { m with age }).Peopled mobs := by
  have hvehicle : ∀ q, (h.update r fun m => { m with age }).vehicleOf q = h.vehicleOf q := fun q => by
    simp only [vehicleOf, read_update, Function.comp_def, ite_self]
  have hpassengers : ∀ q, (h.update r fun m => { m with age }).passengersOf q = h.passengersOf q := fun q => by
    simp only [passengersOf, read_update, Function.comp_def, ite_self]
  have hremoved : ∀ q, (h.update r fun m => { m with age }).isRemoved q = h.isRemoved q := fun q => by
    simp only [isRemoved, read_update, Function.comp_def, ite_self]
  have hsame : SameMobs h (h.update r fun m => { m with age }) (· ∈ mobs) := ⟨size_update, rfl, rfl, fun q _ => by
    simp only [lifetimeOf, read_update, Function.comp_def, ite_self]⟩
  refine ⟨hp.nodup, hp.linked.of_links hsame (fun _ hv => hvehicle _ ▸ hv) (fun _ => hpassengers _ ▸ .refl _)
    (fun hr hv => ?_), hp.members, hp.once, fun r hr => (hremoved r).trans (hp.there r hr),
    fun r hr v hv => hp.vehicles r hr v (hvehicle r ▸ hv)⟩
  rw [hvehicle, hpassengers]
  exact hp.linked.linked hr hv

namespace Spared

theorem refl (start h : Herd) (r : MobRef) : start.Spared h h r :=
  ⟨rfl, fun hnone => ⟨hnone, rfl⟩, fun hsome hnone => absurd hnone hsome⟩

variable (hspared : start.Spared h h' r)

include hspared

theorem aged_iff (hnone : h.vehicleOf r = none) : start.Aged h' r ↔ start.Aged h r := by
  rw [Aged, Aged, (hspared.afoot hnone).2]

theorem stays_afoot {φ : Prop} (h : start.Afoot h r φ) : start.Afoot h' r φ :=
  ⟨(hspared.afoot h.1).1, (hspared.aged_iff h.1).trans h.2⟩

theorem stays_own (hown : h.vehicleOf r = none → ¬ start.Aged h r) : h'.vehicleOf r = none → ¬ start.Aged h' r := by
  intro hnone'
  by_cases hnone : h.vehicleOf r = none
  · rw [hspared.aged_iff hnone]
    exact hown hnone
  · exact hspared.down hnone hnone'

theorem stays_pending (hpending : start.Pending h r) : start.Pending h' r :=
  ⟨hspared.removed.trans hpending.there, hspared.stays_own hpending.own⟩

end Spared

namespace Since

theorem afoot (hs : start.Since h mobs) (hr : r ∈ mobs) (hnone : start.vehicleOf r = none) : h.vehicleOf r = none := by
  rcases hs.vehicle r hr with heq | ⟨hdown, -⟩
  · exact heq.trans hnone
  · exact hdown

theorem of_vehicle (hs : start.Since h mobs) (hr : r ∈ mobs) (hv : h.vehicleOf r = some v) :
    start.vehicleOf r = some v := by
  rcases hs.vehicle r hr with heq | ⟨hdown, -⟩
  · exact heq.symm.trans hv
  · rw [hdown] at hv
    cases hv

theorem down_of_ne (hs : start.Since h mobs) (hr : r ∈ mobs) (hriding : start.vehicleOf r = some v)
    (hne : h.vehicleOf r ≠ some v) : h.vehicleOf r = none := by
  rcases hs.vehicle r hr with heq | ⟨hdown, -⟩
  · exact absurd (heq.trans hriding) hne
  · exact hdown

/-- Who is not older is as old as at the start. -/
theorem age_eq (hs : start.Since h mobs) (hr : r ∈ mobs) (hnot : ¬ start.Aged h r) : h.ageOf r = start.ageOf r :=
  (hs.age r hr).resolve_right hnot

/-- Nobody rides what has gone. -/
theorem vehicle_of_removed (hs : start.Since h mobs) (hp : start.Peopled mobs) (hr : r ∈ mobs)
    (hv : v ∈ start.tracked.toList) (hgone : h.isRemoved v = true) : h.vehicleOf r ≠ some v := by
  intro hriding
  have hlisted := (hs.linked.linked hr (hp.members v hv)).mp hriding
  rw [hs.empty v hv hgone] at hlisted
  cases hlisted

/-- Who rides a mob that is not due, and will not be when it is one tick older, keeps riding it. -/
theorem still_riding (hs : start.Since h mobs) (hr : r ∈ mobs) (hv : v ∈ start.tracked.toList)
    (hriding : start.vehicleOf r = some v) (hnotDue : ¬ start.Due v)
    (hnext : start.vehicleOf v = none ∨ start.ageOf v + 1 < start.lifetimeOf v) : h.vehicleOf r = some v := by
  rcases hs.vehicle r hr with heq | ⟨-, hgone⟩
  · exact heq.trans hriding
  · rcases hs.due v hv (hgone v hriding) with hdue | ⟨hrides, hlate⟩
    · exact absurd hdue hnotDue
    · exact (hnext.elim hrides hlate).elim

/-- A rider is older once what it rides is, on its own, and was not due. -/
theorem aged_along (hs : start.Since h mobs) (hr : r ∈ mobs) (hv : v ∈ start.tracked.toList)
    (hafoot : start.Afoot h v True) (hriding : start.vehicleOf r = some v) (hnotDue : ¬ start.Due v)
    (hflat : start.vehicleOf v = none) : start.Aged h r := by
  have hstill := hs.still_riding hr hv hriding hnotDue (.inl hflat)
  exact (hs.along r hr v hstill).mpr ⟨hafoot.2.mpr trivial, hafoot.1⟩

/-- A rider of a rider is not older, as long as both keep riding. -/
theorem not_aged_stacked (hs : start.Since h mobs) (hr : r ∈ mobs) (hvm : v ∈ mobs) (hv : v ∈ start.tracked.toList)
    (hx : x ∈ start.tracked.toList) (hriding : start.vehicleOf r = some v) (hrides : start.vehicleOf v = some x)
    (hflat : start.vehicleOf x = none) (hnotDue : ¬ start.Due v) (hnext : start.ageOf v + 1 < start.lifetimeOf v)
    (hxnotDue : ¬ start.Due x) : ¬ start.Aged h r := by
  intro haged
  have hstill := hs.still_riding hr hv hriding hnotDue (.inr hnext)
  have hnone := ((hs.along r hr v hstill).mp haged).2
  rw [hs.still_riding hvm hx hrides hxnotDue (.inl hflat)] at hnone
  cases hnone

/-- The riders of a mob that has not been ticked on its own are not older. -/
theorem not_aged_rider (hs : start.Since h mobs) (hown : h.vehicleOf x = none → ¬ start.Aged h x) (hr : r ∈ mobs)
    (hriding : h.vehicleOf r = some x) : ¬ start.Aged h r := by
  intro haged
  obtain ⟨hx, hnone⟩ := (hs.along r hr x hriding).mp haged
  exact hown hnone hx

/-! ## A mob goes -/

/-- A mob that has not been ticked on its own is due because it was due at the start, or would be one tick later. -/
theorem due_start (hs : start.Since h mobs) (hx : x ∈ mobs) (hown : h.vehicleOf x = none → ¬ start.Aged h x)
    (hdue : h.Due x) : start.Due x ∨ start.vehicleOf x ≠ none ∧ ¬ start.ageOf x + 1 < start.lifetimeOf x := by
  rw [Due, hs.lifetime x hx] at hdue
  rcases hs.age x hx with heq | haged
  · rw [heq] at hdue
    exact .inl hdue
  · rw [haged] at hdue
    exact .inr ⟨fun hnone => hown (hs.afoot hx hnone) haged, hdue⟩

section Despawned

variable (hs : start.Since h mobs) (hp : start.Peopled mobs) (hx : x ∈ start.tracked.toList)
  (hown : h.vehicleOf x = none → ¬ start.Aged h x) (hd : h.Despawned h' (· ∈ mobs) x)

include hd in
theorem aged_despawned (hr : r ∈ mobs) : start.Aged h' r ↔ start.Aged h r := by
  rw [Aged, Aged, hd.age r hr]

include hs hown hd

/-- What the mob carried is set down, and is not older yet. -/
theorem down_despawned (hr : r ∈ mobs) (hriding : h.vehicleOf r = some x) : start.Afoot h' r False := by
  rw [Afoot, hd.vehicle r hr, if_pos hriding, aged_despawned hd hr]
  exact ⟨rfl, iff_false_intro (hs.not_aged_rider hown hr hriding)⟩

theorem spared_despawned (hr : r ∈ mobs) (hne : r ≠ x) : start.Spared h h' r where
  removed := by
    rw [Bool.eq_iff_iff, hd.removed r hr]
    exact or_iff_right hne
  afoot hnone := by
    rw [hd.vehicle r hr, hnone, ite_self]
    exact ⟨rfl, hd.age r hr⟩
  down hsome hnone := by
    rw [hd.vehicle r hr] at hnone
    split at hnone
    · exact (hs.down_despawned hown hd hr ‹_›).2.mp
    · exact absurd hnone hsome

include hp hx

theorem despawned (hdue : h.Due x) : start.Since h' mobs := by
  refine ⟨⟨hd.size.trans hs.size, hd.tracked.trans hs.tracked, hd.nextId.trans hs.nextId,
    fun q hq => (hd.lifetime q hq).trans (hs.lifetime q hq)⟩, hd.linked hs.linked, fun r hr => ?_, fun r hr => ?_,
    fun v hv hgone => ?_, fun v hv hgone => ?_, fun r hr v hriding => ?_,
    fun r hr haged => hs.tended r hr ((aged_despawned hd hr).mp haged)⟩
  · rw [aged_despawned hd hr, hd.age r hr]
    exact hs.age r hr
  · have hremoved : ∀ v ∈ mobs, v = x ∨ h.isRemoved v = true → h'.isRemoved v = true :=
      fun v hv => (hd.removed v hv).mpr
    have hvm : ∀ {v}, start.vehicleOf r = some v → v ∈ mobs := fun hv => hp.linked.vehicle_mem hr hv
    rw [hd.vehicle r hr]
    split
    · rename_i hriding
      rw [hs.of_vehicle hr hriding]
      exact .inr ⟨rfl, fun v heq => hremoved v (Option.some.inj heq ▸ hp.members x hx)
        (.inl (Option.some.inj heq).symm)⟩
    · exact (hs.vehicle r hr).imp_right fun ⟨hnone, hgone⟩ =>
        ⟨hnone, fun v hv => hremoved v (hvm hv) (.inr (hgone v hv))⟩
  · rw [hd.passengers v (hp.members v hv)]
    split
    · rfl
    · rename_i hne
      exact hs.empty v hv (((hd.removed v (hp.members v hv)).mp hgone).resolve_left hne)
  · rcases (hd.removed v (hp.members v hv)).mp hgone with rfl | hgone
    · exact hs.due_start (hp.members v hv) hown hdue
    · exact hs.due v hv hgone
  · -- who still rides something rode it before; that may have been set down by `x`, but then it is not older
    rw [hd.vehicle r hr] at hriding
    split at hriding
    · cases hriding
    · have hv := hs.linked.vehicle_mem hr hriding
      rw [aged_despawned hd hr, aged_despawned hd hv, hs.along r hr v hriding, hd.vehicle v hv]
      refine and_congr_right fun haged => ?_
      split
      · rename_i hvx
        exact absurd haged (hs.not_aged_rider hown hv hvx)
      · rfl

end Despawned

/-! ## A mob is ticked -/

section Carried

variable (hs : start.Since h mobs) (hx : x ∈ mobs) (hafoot : h.vehicleOf x = none) (hnot : ¬ start.Aged h x)
  (hd : h.Carried h' (· ∈ mobs) x)

include hd in
theorem spared_carried (hr : r ∈ mobs) (hne : r ≠ x) : start.Spared h h' r where
  removed := hd.removed r hr
  afoot hnone := by
    have hother : ¬ (r = x ∨ h.vehicleOf r = some x) := by
      rw [hnone]
      exact not_or.mpr ⟨hne, nofun⟩
    rw [hd.vehicle r hr, hd.age r hr, if_neg hother]
    exact ⟨hnone, rfl⟩
  down hsome hnone := absurd ((hd.vehicle r hr).symm.trans hnone) hsome

include hs hx hafoot hnot hd

/-- The mob and its riders are older, who were not; the others are as old as before. -/
theorem aged_carried (hr : r ∈ mobs) :
    start.Aged h' r ↔ start.Aged h r ∨ r = x ∨ h.vehicleOf r = some x := by
  rw [Aged, hd.age r hr]
  split
  · rename_i hold
    have hyoung : ¬ start.Aged h r := by
      rcases hold with rfl | hriding
      · exact hnot
      · exact hs.not_aged_rider (fun _ => hnot) hr hriding
    rw [hs.age_eq hr hyoung]
    exact iff_of_true rfl (.inr hold)
  · rename_i hother
    exact (or_iff_left hother).symm

theorem carried (hp : start.Peopled mobs) (htracked : x ∈ start.tracked.toList) : start.Since h' mobs := by
  have haged := fun {r} hr => hs.aged_carried (r := r) hx hafoot hnot hd hr
  refine ⟨⟨hd.size.trans hs.size, hd.tracked.trans hs.tracked, hd.nextId.trans hs.nextId,
    fun q hq => (hd.lifetime q hq).trans (hs.lifetime q hq)⟩, hd.linked hs.linked, fun r hr => ?_, fun r hr => ?_,
    fun v hv hgone => ?_, fun v hv hgone => ?_, fun r hr v hriding => ?_, fun r hr hold => ?_⟩
  · by_cases hold : r = x ∨ h.vehicleOf r = some x
    · exact .inr ((haged hr).mpr (.inr hold))
    · rw [haged hr, or_iff_left hold, hd.age r hr, if_neg hold]
      exact hs.age r hr
  · rw [hd.vehicle r hr]
    refine (hs.vehicle r hr).imp_right fun ⟨hnone, hgone⟩ => ⟨hnone, fun v hv => ?_⟩
    rw [hd.removed v (hp.linked.vehicle_mem hr hv)]
    exact hgone v hv
  · rw [hd.removed v (hp.members v hv)] at hgone
    rw [hd.passengers v (hp.members v hv)]
    exact hs.empty v hv hgone
  · rw [hd.removed v (hp.members v hv)] at hgone
    exact hs.due v hv hgone
  · rw [hd.vehicle r hr] at hriding
    have hv := hs.linked.vehicle_mem hr hriding
    rw [haged hr, haged hv, hd.vehicle v hv, hs.along r hr v hriding, hriding, Option.some.injEq]
    have hrx : r ≠ x := by
      rintro rfl
      rw [hafoot] at hriding
      cases hriding
    by_cases hvx : v = x
    · simp [hvx, hafoot]
    · -- a vehicle that rides `x` has just become older, and still rides
      by_cases hvr : h.vehicleOf v = some x
      · simp [hrx, hvx, hvr]
      · simp [hrx, hvx, hvr]
  · rcases (haged hr).mp hold with hold | rfl | hriding
    · exact hs.tended r hr hold
    · exact .inl htracked
    · exact .inr ⟨x, htracked, hs.of_vehicle hr hriding⟩

/-- A tick makes a mob and its riders older. -/
theorem countP_carried (hp : start.Peopled mobs) :
    mobs.countP (start.Aged h' ·) = mobs.countP (start.Aged h ·) + (1 + (h.passengersOf x).length) := by
  have hnodup : (x :: h.passengersOf x).Nodup := by
    refine List.nodup_cons.mpr ⟨fun hself => ?_, hs.linked.nodup hx⟩
    rw [← hs.linked.linked hx hx, hafoot] at hself
    cases hself
  have hriders : ∀ r, r ∈ x :: h.passengersOf x ↔ r ∈ mobs ∧ (r = x ∨ h.vehicleOf r = some x) := by
    intro r
    rw [List.mem_cons]
    constructor
    · rintro (rfl | hr)
      · exact ⟨hx, .inl rfl⟩
      · have hrm := hs.linked.passengers_mem hx hr
        exact ⟨hrm, .inr ((hs.linked.linked hrm hx).mpr hr)⟩
    · rintro ⟨hr, heq | hriding⟩
      · exact .inl heq
      · exact .inr ((hs.linked.linked hr hx).mp hriding)
  -- the older ones are those that were older, and the mob with its riders, none of whom was
  have hperm : (mobs.filter (start.Aged h' ·)).Perm (mobs.filter (start.Aged h ·) ++ x :: h.passengersOf x) := by
    refine (List.perm_ext_iff_of_nodup (hp.nodup.filter _) (List.nodup_append.mpr ⟨hp.nodup.filter _, hnodup, ?_⟩)).mpr ?_
    · rintro r hr q hq rfl
      have haged := of_decide_eq_true (List.mem_filter.mp hr).2
      obtain ⟨hrm, rfl | hriding⟩ := (hriders r).mp hq
      · exact hnot haged
      · exact hs.not_aged_rider (fun _ => hnot) hrm hriding haged
    · intro r
      simp only [List.mem_append, List.mem_filter, decide_eq_true_iff, hriders]
      rw [← and_or_left]
      exact and_congr_right fun hr => hs.aged_carried hx hafoot hnot hd hr
  rw [List.countP_eq_length_filter, List.countP_eq_length_filter, hperm.length_eq, List.length_append, List.length_cons,
    Nat.add_comm 1]

end Carried

end Since

end GridTick.Synthetic.Herd
