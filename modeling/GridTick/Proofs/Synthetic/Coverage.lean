import GridTick.Proofs.Tick.Terms
import GridTick.Proofs.Synthetic.Ages
import GridTick.Proofs.Synthetic.Riders

/-!
# GridTick.Proofs.Synthetic.Coverage — which mobs a tick makes older

The totals of entities and passengers count who grows older.  A mob that rides nothing is ticked, and takes its riders
along.  A rider whose vehicle has lived its time is set down, and ticked on its own if it has not been passed over by
then; so it depends on who of the two is offered a tick first whether the rider grows older.

* `Herd.Progress`: how far a part of a tick has got with the mobs that it offers ticks.
* `Herd.Underway`, `Herd.Checked`: the same while one of them is offered its tick.
* `Underway.checkDespawn`, `Checked.tickMob`: what happens to that one.
* `coveringTerms`, `Share.contract_keeps`: an offer among those of other parts.
* `tick_offered`, `aged_iff_passesOver`, `tick_total`: who is older at the end, and how many.
* `Covered`, `tick_covered`: a whole tick.
* `Reached.peopled`, `Reached.beside`, `Reached.tick_counts`: a tick of any world that is reached.
-/

namespace GridTick.Synthetic

namespace Herd

variable {start h h' : Herd} {entities rest : List MobRef} {e r v : MobRef}

/-! ## How far the offers have got -/

/-- What is known of a mob that has been offered its tick, when those in `rest` have not.  If it rode nothing then it is
older, and has gone if it was due.  If it rode a mob that was due and has been offered its tick, then it has been set
down, and is older just if it was offered its own tick later. -/
structure Offered (start : Herd) (entities rest : List MobRef) (h : Herd) (r : MobRef) : Prop where
  own : start.vehicleOf r = none → start.Afoot h r True ∧ (start.Due r → h.isRemoved r = true)
  late : ∀ v ∈ entities, v ∉ rest → start.vehicleOf r = some v → start.vehicleOf v = none → start.Due v →
    start.Afoot h r ([v, r].Sublist entities)

/-- The mobs in `rest` have not been offered their ticks, the others have. -/
structure Progress (start : Herd) (entities rest : List MobRef) (h : Herd) : Prop where
  pending : ∀ r ∈ rest, start.Pending h r
  offered : ∀ r ∈ entities, r ∉ rest → start.Offered entities rest h r

/-- The same while `e` is offered its tick. -/
structure Underway (start : Herd) (entities : List MobRef) (e : MobRef) (rest : List MobRef) (h : Herd) : Prop where
  pending : ∀ r ∈ rest, start.Pending h r
  offered : ∀ r ∈ entities, r ∉ e :: rest → start.Offered entities (e :: rest) h r

/-- The same once `e` has had the chance to despawn. -/
structure Checked (start : Herd) (entities : List MobRef) (e : MobRef) (rest : List MobRef) (h : Herd) : Prop
    extends start.Underway entities e rest h where
  own : h.vehicleOf e = none → ¬ start.Aged h e
  gone : start.vehicleOf e = none → start.Due e → h.isRemoved e = true
  down : start.vehicleOf e = none → start.Due e → ∀ r ∈ entities, r ∉ e :: rest → start.vehicleOf r = some e →
    start.Afoot h r False

theorem Progress.underway (hprogress : start.Progress entities (e :: rest) h) :
    start.Underway entities e rest h ∧ start.Pending h e :=
  have ⟨he, hrest⟩ := List.forall_mem_cons.mp hprogress.pending
  ⟨⟨hrest, hprogress.offered⟩, he⟩

theorem Spared.stays_offered (hspared : start.Spared h h' r) (ho : start.Offered entities rest h r) :
    start.Offered entities rest h' r where
  own hnone := ⟨hspared.stays_afoot (ho.own hnone).1, fun hdue => hspared.removed.trans ((ho.own hnone).2 hdue)⟩
  late v hv hrest hriding hflat hdue := hspared.stays_afoot (ho.late v hv hrest hriding hflat hdue)

/-! ## One offer -/

section Offer

variable {before mobs : List MobRef} (hsplit : before ++ e :: rest = entities)

include hsplit

theorem mem_entities : e ∈ entities := by
  rw [← hsplit]
  exact List.mem_append_right _ (List.mem_cons_self ..)

theorem mem_of_rest (hr : r ∈ rest) : r ∈ entities := by
  rw [← hsplit]
  exact List.mem_append_right _ (List.mem_cons_of_mem _ hr)

theorem mem_before (hr : r ∈ entities) (hnot : r ∉ e :: rest) : r ∈ before := by
  rw [← hsplit] at hr
  exact (List.mem_append.mp hr).resolve_right hnot

/-- Who has been offered a tick comes before `e`. -/
theorem pair_sublist (hr : r ∈ entities) (hnot : r ∉ e :: rest) : [r, e].Sublist entities := by
  have hbefore := mem_before hsplit hr hnot
  rw [← hsplit]
  exact (List.singleton_sublist.mpr hbefore).append (List.singleton_sublist.mpr (List.mem_cons_self ..))

section Nodup

variable (hnodup : entities.Nodup)

include hnodup

theorem not_pair_sublist (hr : r ∈ entities) (hnot : r ∉ e :: rest) : ¬ [e, r].Sublist entities := by
  have hbefore := mem_before hsplit hr hnot
  rw [← hsplit] at hnodup ⊢
  obtain ⟨-, -, hdisjoint⟩ := List.nodup_append.mp hnodup
  intro hsub
  obtain ⟨l₁, l₂, heq, h₁, h₂⟩ := List.sublist_append_iff.mp hsub
  rcases l₁ with _ | ⟨a, l₁⟩
  · rw [List.nil_append] at heq
    rw [← heq] at h₂
    exact hdisjoint r hbefore r (h₂.subset (by simp)) rfl
  · obtain ⟨rfl, -⟩ := List.cons.inj heq
    exact hdisjoint e (h₁.subset (List.mem_cons_self ..)) e (List.mem_cons_self ..) rfl

theorem ne_of_rest (hr : r ∈ rest) : r ≠ e := by
  rintro rfl
  rw [← hsplit] at hnodup
  exact (List.nodup_cons.mp (List.nodup_append.mp hnodup).2.1).1 hr

theorem Underway.spared (hspared : ∀ r ∈ entities, r ≠ e → start.Spared h h' r)
    (hu : start.Underway entities e rest h) : start.Underway entities e rest h' where
  pending r hr := (hspared r (mem_of_rest hsplit hr) (ne_of_rest hsplit hnodup hr)).stays_pending (hu.pending r hr)
  offered r hr hnot :=
    (hspared r hr fun heq => hnot (heq ▸ List.mem_cons_self ..)).stays_offered (hu.offered r hr hnot)

theorem Checked.spared (hspared : ∀ r ∈ entities, start.Spared h h' r) (hc : start.Checked entities e rest h) :
    start.Checked entities e rest h' where
  toUnderway := hc.toUnderway.spared hsplit hnodup fun r hr _ => hspared r hr
  own := (hspared e (mem_entities hsplit)).stays_own hc.own
  gone hflat hdue := (hspared e (mem_entities hsplit)).removed.trans (hc.gone hflat hdue)
  down hflat hdue r hr hnot hriding := (hspared r hr).stays_afoot (hc.down hflat hdue r hr hnot hriding)

/-- An offer ends: what is known of `e` by itself completes what is known of the others. -/
theorem Underway.progress (hu : start.Underway entities e rest h)
    (hdown : start.vehicleOf e = none → start.Due e → ∀ r ∈ entities, r ∉ e :: rest → start.vehicleOf r = some e →
      start.Afoot h r False) (he : start.Offered entities rest h e) : start.Progress entities rest h where
  pending := hu.pending
  offered r hr hnot := by
    by_cases hre : r = e
    · rwa [hre]
    · have hnot' : r ∉ e :: rest := List.not_mem_cons_of_ne_of_not_mem hre hnot
      have ho := hu.offered r hr hnot'
      refine ⟨ho.own, fun v hv hvrest hriding hflat hdue => ?_⟩
      by_cases hve : v = e
      · subst hve
        obtain ⟨hnone, haged⟩ := hdown hflat hdue r hr hnot' hriding
        exact ⟨hnone, haged.trans (iff_of_false id (not_pair_sublist hsplit hnodup hr hnot'))⟩
      · exact ho.late v hv (List.not_mem_cons_of_ne_of_not_mem hve hvrest) hriding hflat hdue

end Nodup

end Offer

/-! ### What happens to the mob that is offered its tick -/

section Happening

variable {before mobs : List MobRef} (hp : start.Peopled mobs) (hs : start.Since h mobs)
  (htracked : ∀ r ∈ entities, r ∈ start.tracked.toList) (hsplit : before ++ e :: rest = entities)
  (hnodup : entities.Nodup)

include hp hs htracked hsplit hnodup

/-- The mob may go. -/
theorem Underway.checkDespawn (hu : start.Underway entities e rest h) (he : start.Pending h e) :
    start.Since (h.checkDespawn e) mobs ∧
      (mobs.countP (start.Aged (h.checkDespawn e) ·) = mobs.countP (start.Aged h ·)) ∧
      (∀ r ∈ mobs, r ≠ e → start.Spared h (h.checkDespawn e) r) ∧
      start.Checked entities e rest (h.checkDespawn e) := by
  have hx := htracked e (mem_entities hsplit)
  have hmem := hp.members e hx
  rcases hs.linked.checkDespawn hmem with ⟨heq, hspared⟩ | ⟨hdue, -, hd⟩
  · -- nothing happens, so it was not due
    rw [heq]
    have hnot : start.vehicleOf e = none → ¬ start.Due e := by
      intro hflat hdue
      have hage := hs.age_eq hmem (he.own (hs.afoot hmem hflat))
      rw [Due, ← hage, ← hs.lifetime e hmem] at hdue
      have hgone := hspared hdue
      rw [he.there] at hgone
      cases hgone
    exact ⟨hs, rfl, fun r _ _ => .refl _ _ r, hu, he.own, fun hflat hdue => absurd hdue (hnot hflat),
      fun hflat hdue => absurd hdue (hnot hflat)⟩
  · have hothers := fun r hr hne => hs.spared_despawned he.own hd (r := r) hr hne
    refine ⟨hs.despawned hp hx he.own hd hdue, ?_, hothers, ?_, fun hnone => ?_, fun _ _ => ?_,
      fun _ _ r hr _ hriding => ?_⟩
    · exact List.countP_congr fun r hr => by simp only [decide_eq_true_iff, Since.aged_despawned hd hr]
    · exact hu.spared hsplit hnodup fun r hr => hothers r (hp.members r (htracked r hr))
    · rw [Since.aged_despawned hd hmem]
      rw [hd.vehicle e hmem] at hnone
      split at hnone
      · exact hs.not_aged_rider he.own hmem ‹_›
      · exact he.own hnone
    · exact (hd.removed e hmem).mpr (.inl rfl)
    · have hrm := hp.members r (htracked r hr)
      refine hs.down_despawned he.own hd hrm ?_
      rcases hs.vehicle r hrm with heq | ⟨-, hgone⟩
      · exact heq.trans hriding
      · have hgone := hgone e hriding
        rw [he.there] at hgone
        cases hgone

/-- The mob, which rides nothing, is ticked. -/
theorem Checked.tickMob (hc : start.Checked entities e rest h) (hafoot : h.vehicleOf e = none) :
    start.Since (h.tickMob e).2 mobs ∧
      (mobs.countP (start.Aged (h.tickMob e).2 ·) = mobs.countP (start.Aged h ·) + (1 + (h.tickMob e).1)) ∧
      (∀ r ∈ mobs, r ≠ e → start.Spared h (h.tickMob e).2 r) ∧ start.Progress entities rest (h.tickMob e).2 := by
  have htracked' := htracked e (mem_entities hsplit)
  have hmem := hp.members e htracked'
  have hnot := hc.own hafoot
  obtain ⟨hcount, hd⟩ := hs.linked.tickMob hmem (by rw [hafoot]; nofun)
  have hothers := fun r hr hne => (Since.spared_carried hd hr hne : start.Spared h _ r)
  have hdone : start.Afoot (h.tickMob e).2 e True :=
    ⟨(hd.vehicle e hmem).trans hafoot,
      iff_true_intro ((hs.aged_carried hmem hafoot hnot hd hmem).mpr (.inr (.inl rfl)))⟩
  refine ⟨hs.carried hmem hafoot hnot hd hp htracked', ?_, hothers, ?_⟩
  · rw [hcount]
    exact hs.countP_carried hmem hafoot hnot hd hp
  · have hu' := hc.toUnderway.spared hsplit hnodup fun r hr => hothers r (hp.members r (htracked r hr))
    refine hu'.progress hsplit hnodup (fun hflat hdue r hr hnot hriding => ?_) ⟨fun hflat => ⟨hdone, fun hdue => ?_⟩,
      fun v hv hrest hriding hflat _ => ?_⟩
    · have hne : r ≠ e := fun heq => hnot (heq ▸ List.mem_cons_self ..)
      exact (hothers r (hp.members r (htracked r hr)) hne).stays_afoot (hc.down hflat hdue r hr hnot hriding)
    · exact (hd.removed e hmem).trans (hc.gone hflat hdue)
    · -- what it rode has been offered a tick, so it comes first
      have hne : v ≠ e := by
        rintro rfl
        rw [hflat] at hriding
        cases hriding
      exact ⟨hdone.1, hdone.2.trans (iff_of_true trivial
        (pair_sublist hsplit hv (List.not_mem_cons_of_ne_of_not_mem hne hrest)))⟩

end Happening

end Herd

/-! ## The mobs that one part offers their ticks -/

/-- Ticks of mobs on their own and along with others. -/
def State.covered (s : State) : UInt64 := s.entityTicks + s.passengerTicks

theorem State.covered_tickEntity (s : State) (e : MobRef) :
    (s.tickEntity e).covered = s.covered + UInt64.ofNat (1 + (s.herd.tickMob e).1) := by
  change s.entityTicks + 1 + (s.passengerTicks + UInt64.ofNat (s.herd.tickMob e).1) = _
  rw [UInt64.ofNat_add, covered, UInt64.add_assoc, UInt64.add_assoc, ← UInt64.add_assoc 1, UInt64.add_comm 1,
    UInt64.add_assoc s.passengerTicks]
  rfl

/-- The totals have counted those who are older, and nobody twice; and to the mobs of other parts only that happens
which may happen to riders. -/
def coveringTerms (start : State) (mobs : List MobRef) (part : MobRef → Option Nat) : Terms State Key MobRef where
  holds s _ := start.herd.Since s.herd mobs ∧
    s.covered = start.covered + UInt64.ofNat (mobs.countP (start.herd.Aged s.herd ·))
  may p s s' := ∀ r ∈ mobs, part r ≠ p → start.herd.Spared s.herd s'.herd r
  idle _ _ _ _ hs := hs

/-- Tracked mobs of one part. -/
structure Share (start : Herd) (part : MobRef → Option Nat) (p : Option Nat) (entities : List MobRef) : Prop where
  tracked : ∀ r ∈ entities, r ∈ start.tracked.toList
  part : ∀ r ∈ entities, part r = p
  nodup : entities.Nodup

section Offers

open Herd

variable {start : State} {mobs : List MobRef} {part : MobRef → Option Nat} {o : Origin} {p : Option Nat}
  {entities rest before : List MobRef} {e r v : MobRef}

theorem lasts_spared {P : Herd → Prop}
    (hP : ∀ h h', (∀ r ∈ mobs, part r = p → start.herd.Spared h h' r) → P h → P h') :
    (coveringTerms start mobs part).Lasts p fun s => P s.herd :=
  fun _ s s' _ hq _ hmay => hP s.herd s'.herd fun r hr hpart => hmay r hr (hpart ▸ hq.symm)

/-- A call that happens to `e`. -/
theorem serves_happening_to {c : Call Key MobRef} {P : State → Prop} {Q : c.Answer → State → Prop}
    (hpart : part e = o.place?)
    (h : ∀ s H, (coveringTerms start mobs part).holds s H → P s → ∃ a s', world.answer c s = (.ok a, s') ∧
      (coveringTerms start mobs part).holds s' H ∧ (∀ r ∈ mobs, r ≠ e → start.herd.Spared s.herd s'.herd r) ∧ Q a s') :
    world.Serves (coveringTerms start mobs part) o c P Q := by
  intro s H hs hP
  obtain ⟨a, s', hans, hs', hspared, hQ⟩ := h s H hs hP
  exact ⟨a, s', hans, hs', fun r hr hne => hspared r hr fun heq => hne (heq ▸ hpart), hQ⟩

/-- A call that reads. -/
theorem serves_reading_of {c : Call Key MobRef} {P : State → Prop} {Q : c.Answer → State → Prop}
    (h : ∀ s, start.herd.Since s.herd mobs → P s → ∃ a, world.answer c s = (.ok a, s) ∧ Q a s) :
    world.Serves (coveringTerms start mobs part) o c P Q := by
  intro s H hs hP
  obtain ⟨a, hans, hQ⟩ := h s hs.1 hP
  exact ⟨a, s, hans, hs, fun r _ _ => .refl _ _ r, hQ⟩

/-- A call that always gets the same answer. -/
theorem keeps_answer {c : Call Key MobRef} {a : c.Answer} {P Q : State → Prop}
    (hlasts : (coveringTerms start mobs part).Lasts o.place? Q)
    (h : ∀ s, P s → world.answer c s = (.ok a, s) ∧ Q s) :
    (Program.call c).Keeps world (coveringTerms start mobs part) o P fun b s => b = a ∧ Q s :=
  .call (fun b => (Terms.Lasts.const _ _ (b = a)).and hlasts)
    (serves_reading_of fun s _ hP => ⟨a, (h s hP).1, rfl, (h s hP).2⟩)

section Contract

variable (hp : start.herd.Peopled mobs) (hshare : Share start.herd part o.place? entities)
  (hsplit : before ++ e :: rest = entities)

include hp hshare

theorem Share.lasts {P : Herd → Prop} (hP : ∀ h h', (∀ r ∈ entities, start.herd.Spared h h' r) → P h → P h') :
    (coveringTerms start mobs part).Lasts o.place? fun s => P s.herd :=
  lasts_spared fun h h' hspared => hP h h' fun r hr =>
    hspared r (hp.members r (hshare.tracked r hr)) (hshare.part r hr)

theorem Share.lasts_progress (hrest : ∀ r ∈ rest, r ∈ entities) :
    (coveringTerms start mobs part).Lasts o.place? fun s => start.herd.Progress entities rest s.herd :=
  hshare.lasts hp fun _ _ hspared hprogress =>
    ⟨fun r hr => (hspared r (hrest r hr)).stays_pending (hprogress.pending r hr),
      fun r hr hnot => (hspared r hr).stays_offered (hprogress.offered r hr hnot)⟩

include hsplit

theorem Share.lasts_checked : (coveringTerms start mobs part).Lasts o.place? fun s =>
    start.herd.Checked entities e rest s.herd :=
  hshare.lasts hp fun _ _ hspared => Checked.spared hsplit hshare.nodup hspared

theorem Share.lasts_there : (coveringTerms start mobs part).Lasts o.place? fun s =>
    start.herd.Underway entities e rest s.herd ∧ start.herd.Pending s.herd e :=
  (hshare.lasts hp fun _ _ hspared => Underway.spared hsplit hshare.nodup fun r hr _ => hspared r hr).and
    (hshare.lasts hp fun _ _ hspared => (hspared e (mem_entities hsplit)).stays_pending)

theorem Share.lasts_loose : (coveringTerms start mobs part).Lasts o.place? fun s =>
    start.herd.Checked entities e rest s.herd ∧ s.herd.vehicleOf e = none :=
  (hshare.lasts_checked hp hsplit).and
    (hshare.lasts hp fun _ _ hspared hnone => ((hspared e (mem_entities hsplit)).afoot hnone).1)

/-- If what a mob rode still carries it then the mob is passed over; that has not happened to a vehicle that was due and
has been offered its tick. -/
theorem Share.stillCarries_keeps (hriding : start.herd.vehicleOf e = some v) :
    (Program.stillCarries v e).Keeps world (coveringTerms start mobs part) o
      (fun s => start.herd.Checked entities e rest s.herd)
      fun carried s => if carried = true then start.herd.Progress entities rest s.herd
        else start.herd.Checked entities e rest s.herd ∧ s.herd.vehicleOf e = none := by
  have htracked := hshare.tracked e (mem_entities hsplit)
  have hmem := hp.members e htracked
  have hv := hp.vehicles e htracked v hriding
  have hprogress := hshare.lasts_progress hp fun _ => mem_of_rest hsplit
  have hchecked := hshare.lasts_checked hp hsplit
  have hloose := hshare.lasts_loose hp hsplit
  refine (Program.Keeps.call (R := fun gone (s : State) => if gone = true then
    start.herd.Checked entities e rest s.herd ∧ s.herd.vehicleOf e = none else
    (v ∈ entities → v ∉ e :: rest → start.herd.vehicleOf v = none → ¬ start.herd.Due v) ∧
      start.herd.Checked entities e rest s.herd) (fun gone => ?_)
    (serves_reading_of fun s hs hc => ⟨s.herd.isRemoved v, rfl, ?_⟩)).bind fun gone => ?_
  · cases gone with
    | true => exact hloose
    | false => exact (Terms.Lasts.const _ _ _).and hchecked
  · cases hgone : s.herd.isRemoved v with
    | true => exact ⟨hc, hs.down_of_ne hmem hriding (hs.vehicle_of_removed hp hmem hv hgone)⟩
    | false =>
      refine ⟨fun hshared hnot hflat hdue => ?_, hc⟩
      have hgone' := ((hc.offered v hshared hnot).own hflat).2 hdue
      rw [hgone] at hgone'
      cases hgone'
  · cases gone with
    | true => exact .done fun _ _ _ h => h
    | false =>
      refine .assume fun hnotDue => .call (fun listed => ?_)
        (serves_reading_of fun s hs hc => ⟨s.herd.lists v e, rfl, ?_⟩)
      · cases listed with
        | true => exact hprogress
        | false => exact hloose
      · have hlists := (hs.linked.lists_iff_mem hmem (hp.members v hv)).trans
          (hs.linked.linked hmem (hp.members v hv)).symm
        cases hlisted : s.herd.lists v e with
        | true =>
          refine hc.toUnderway.progress hsplit hshare.nodup hc.down ⟨fun hafoot => ?_,
            fun u hu hnot hriding' hflat hdue => ?_⟩
          · rw [hriding] at hafoot
            cases hafoot
          · obtain rfl := Option.some.inj (hriding.symm.trans hriding')
            have hne : v ≠ e := by
              rintro rfl
              rw [hflat] at hriding
              cases hriding
            exact absurd hdue (hnotDue hu (List.not_mem_cons_of_ne_of_not_mem hne hnot) hflat)
        | false =>
          refine ⟨hc, hs.down_of_ne hmem hriding fun heq => ?_⟩
          rw [hlists.mpr heq] at hlisted
          cases hlisted

/-- An offer keeps to the terms, and gets one further. -/
theorem Share.contract_keeps : (Program.contract e).Keeps world (coveringTerms start mobs part) o
    (fun s => start.herd.Progress entities (e :: rest) s.herd) fun _ s => start.herd.Progress entities rest s.herd := by
  have hpart := hshare.part e (mem_entities hsplit)
  have hmem := hp.members e (hshare.tracked e (mem_entities hsplit))
  have hprogress := hshare.lasts_progress hp fun _ => mem_of_rest hsplit
  have hchecked := hshare.lasts_checked hp hsplit
  have hthere := hshare.lasts_there hp hsplit
  have hloose := hshare.lasts_loose hp hsplit
  refine Program.contract_keeps
    (fun s : State => start.herd.Underway entities e rest s.herd ∧ start.herd.Pending s.herd e)
    (fun s : State => start.herd.Checked entities e rest s.herd)
    (fun s : State => start.herd.Checked entities e rest s.herd ∧ s.herd.vehicleOf e = none)
    (fun s : State => start.herd.Checked entities e rest s.herd ∧ s.herd.vehicleOf e = none)
    (fun s : State => start.herd.Progress entities rest s.herd)
    (fun v (s : State) => start.herd.vehicleOf e = some v ∧ start.herd.Checked entities e rest s.herd)
    ?_ ?_ ?_ ?_ ?_ ?_ ?_
  · -- it is there
    refine (keeps_answer (a := false) hthere fun s hprogress => ⟨?_, hprogress.underway⟩).post ?_
    · exact congrArg (fun gone => (Except.ok gone, s)) hprogress.underway.2.there
    · rintro gone s H - ⟨rfl, h⟩
      simpa using h
  · -- it is not frozen
    refine (keeps_answer (a := false) hthere fun s h => ⟨rfl, h⟩).post ?_
    rintro frozen s H - ⟨rfl, h⟩
    simpa using h
  · -- it may despawn
    refine .call (fun _ => hchecked) (serves_happening_to hpart fun s H hholds hthere => ?_)
    obtain ⟨hs, htotal⟩ := hholds
    obtain ⟨hu, he⟩ := hthere
    obtain ⟨hs', hcount, hspared, hc⟩ := hu.checkDespawn hp hs hshare.tracked hsplit hshare.nodup he
    exact ⟨(), { s with herd := s.herd.checkDespawn e }, rfl, ⟨hs', htotal.trans (by rw [hcount])⟩, hspared, hc⟩
  · -- it names its vehicle
    refine .call (fun v => ?_) (serves_reading_of fun s hs hc => ⟨s.herd.vehicleOf e, rfl, ?_⟩)
    · cases v with
      | none => exact hloose
      | some v => exact (Terms.Lasts.const _ _ _).and hchecked
    · cases hv : s.herd.vehicleOf e with
      | none => exact ⟨hc, rfl⟩
      | some v => exact ⟨hs.of_vehicle hmem hv, hc⟩
  · -- the vehicle carries it
    exact fun v => .assume fun hriding => hshare.stillCarries_keeps hp hsplit hriding
  · -- it gets off; it rides nothing already
    refine .call (fun _ => hloose) (serves_happening_to hpart fun s H hs h => ?_)
    have hans : world.answer (.stopRiding e) s = (.ok (), { s with herd := s.herd.stopRiding e }) := rfl
    rw [Herd.stopRiding, h.2] at hans
    exact ⟨(), s, hans, hs, fun r _ _ => .refl _ _ r, h⟩
  · -- it is ticked
    refine .call (fun _ => hprogress) (serves_happening_to hpart fun s H hholds hloose => ?_)
    obtain ⟨hs, htotal⟩ := hholds
    obtain ⟨hc, hafoot⟩ := hloose
    obtain ⟨hs', hcount, hspared, hprogress⟩ := hc.tickMob hp hs hshare.tracked hsplit hshare.nodup hafoot
    refine ⟨(), s.tickEntity e, rfl, ⟨hs', ?_⟩, hspared, hprogress⟩
    rw [s.covered_tickEntity, htotal, UInt64.add_assoc, ← UInt64.ofNat_add, ← hcount]
    rfl

end Contract

end Offers

/-! ## A tick -/

section Tick

open Herd

variable {s : State} {mobs : List MobRef} (enable : Bool) (turn : Turn Key)

theorem shareOf_share (hp : s.herd.Peopled mobs) (p : Option Nat) :
    Share s.herd (partOf world enable turn s) p (shareOf world enable turn s p) where
  tracked _ hr := (List.mem_filter.mp hr).1
  part _ hr := of_decide_eq_true (List.mem_filter.mp hr).2
  nodup := hp.once.filter _

theorem covering_tickTerms (hp : s.herd.Peopled mobs) : TickTerms world
    (coveringTerms s mobs (partOf world enable turn s)) enable turn s (fun _ => True)
    (fun p s' => s.herd.Progress (shareOf world enable turn s p) (shareOf world enable turn s p) s'.herd)
    fun p s' => s.herd.Progress (shareOf world enable turn s p) [] s'.herd where
  chunks o := by
    refine ⟨(shareOf_share enable turn hp o.place?).lasts_progress hp fun _ hr => hr, fun k => ?_, fun k _ => ?_⟩
    · exact serves_reading_of fun s' _ hprogress =>
        ⟨if s'.chunks.contains k then some k else none, rfl, fun _ _ => trivial, hprogress⟩
    · exact fun s' H hs hprogress => ⟨(), _, rfl, hs, fun r _ _ => .refl _ _ r, hprogress⟩
  loaded _ _ := trivial
  offers o := Program.offerAll_keeps
    (K := fun rest (s' : State) => s.herd.Progress (shareOf world enable turn s o.place?) rest s'.herd)
    fun _ _ ⟨_, hsplit⟩ => (shareOf_share enable turn hp o.place?).contract_keeps hp hsplit
  lasts p := by
    have hlasts : ∀ o : Origin, (coveringTerms s mobs (partOf world enable turn s)).Lasts o.place? fun s' =>
        s.herd.Progress (shareOf world enable turn s o.place?) [] s'.herd := fun o =>
      (shareOf_share enable turn hp o.place?).lasts_progress hp fun _ hr => absurd hr List.not_mem_nil
    cases p with
    | none => exact hlasts .caller
    | some i => exact hlasts (.task i (.ofPlace i))
  tracked _ _ _ hs _ := congrArg Tracked.toList hs.1.tracked
  holds := by
    refine ⟨hp.since, ?_⟩
    have hnobody : mobs.countP (s.herd.Aged s.herd ·) = 0 :=
      List.countP_eq_zero.mpr fun r _ => by simpa using (not_aged rfl : ¬ s.herd.Aged s.herd r)
    rw [hnobody]
    exact (UInt64.add_zero _).symm
  start p := ⟨fun r hr => ⟨hp.there r (List.mem_filter.mp hr).1, fun _ => not_aged rfl⟩, fun r hr hnot => absurd hr hnot⟩

/-- Two mobs of one part come in the same order in the part's share. -/
theorem pair_sublist_shareOf {v e : MobRef} {p : Option Nat} (hv : partOf world enable turn s v = p)
    (he : partOf world enable turn s e = p) :
    [v, e].Sublist (shareOf world enable turn s p) ↔ [v, e].Sublist s.herd.tracked.toList := by
  refine ⟨fun hsub => hsub.trans List.filter_sublist, fun hsub => ?_⟩
  have hboth : [v, e].filter (fun r => decide (partOf world enable turn s r = p)) = [v, e] := by simp [hv, he]
  exact hboth ▸ hsub.filter _

end Tick

namespace Herd

instance (h : Herd) (r : MobRef) : Decidable (h.Due r) := inferInstanceAs (Decidable (¬ _))

/-- A rider that is offered its tick before its vehicle, which is due: it is passed over, and then set down. -/
def passesOver (h : Herd) (e : MobRef) : Bool :=
  (h.vehicleOf e).any fun v => h.Due v ∧ ¬ [v, e].Sublist h.tracked.toList

end Herd

open Herd in
/-- What a tick makes of the ages of all mobs.  Nobody is more than one tick older, and the totals count who is older.
Those are the tracked mobs that ride nothing; the riders of mobs that ride nothing and are not due; and the riders of
mobs that are due, if they are offered their ticks after these.  A rider of a rider is not among them.  So in a herd where
nobody rides a rider, and riders are tracked, the totals count all tracked mobs except those that are passed over. -/
structure Covered (s s' : State) (mobs : List MobRef) (part : MobRef → Option Nat) : Prop where
  once : ∀ r ∈ mobs, s'.herd.ageOf r = s.herd.ageOf r ∨ s.herd.Aged s'.herd r
  counted : s'.covered = s.covered + UInt64.ofNat (mobs.countP (s.herd.Aged s'.herd ·))
  afoot : ∀ e ∈ s.herd.tracked.toList, s.herd.vehicleOf e = none → s.herd.Aged s'.herd e
  along : ∀ e ∈ s.herd.tracked.toList, ∀ v, s.herd.vehicleOf e = some v → s.herd.vehicleOf v = none →
    ¬ s.herd.Due v → s.herd.Aged s'.herd e
  down : ∀ e ∈ s.herd.tracked.toList, ∀ v, s.herd.vehicleOf e = some v → s.herd.vehicleOf v = none →
    s.herd.Due v → part e = part v → (s.herd.Aged s'.herd e ↔ [v, e].Sublist s.herd.tracked.toList)
  stacked : ∀ e ∈ s.herd.tracked.toList, ∀ v u, s.herd.vehicleOf e = some v → s.herd.vehicleOf v = some u →
    s.herd.vehicleOf u = none → ¬ s.herd.Due u → ¬ s.herd.Due v → s.herd.ageOf v + 1 < s.herd.lifetimeOf v →
    ¬ s.herd.Aged s'.herd e
  total : (∀ e ∈ s.herd.tracked.toList, ∀ v, s.herd.vehicleOf e = some v →
      s.herd.vehicleOf v = none ∧ (s.herd.Due v → part e = part v)) →
    (∀ r ∈ mobs, ∀ v ∈ s.herd.tracked.toList, s.herd.vehicleOf r = some v → r ∈ s.herd.tracked.toList) →
    s'.covered + UInt64.ofNat (s.herd.tracked.toList.countP s.herd.passesOver) =
      s.covered + UInt64.ofNat s.herd.tracked.toList.length

section Tick

open Herd

variable {s s' : State} {mobs : List MobRef} {part : MobRef → Option Nat} {e v u : MobRef}

/-- The totals count the tracked mobs that are older, if nobody else is. -/
theorem total_of_counted (hp : s.herd.Peopled mobs)
    (hcounted : s'.covered = s.covered + UInt64.ofNat (mobs.countP (s.herd.Aged s'.herd ·)))
    (htracked : ∀ r ∈ mobs, s.herd.Aged s'.herd r → r ∈ s.herd.tracked.toList)
    (haged : ∀ e ∈ s.herd.tracked.toList, (s.herd.Aged s'.herd e ↔ s.herd.passesOver e = false)) :
    s'.covered + UInt64.ofNat (s.herd.tracked.toList.countP s.herd.passesOver) =
      s.covered + UInt64.ofNat s.herd.tracked.toList.length := by
  have hperm : (mobs.filter (s.herd.Aged s'.herd ·)).Perm (s.herd.tracked.toList.filter (s.herd.Aged s'.herd ·)) := by
    refine (List.perm_ext_iff_of_nodup (hp.nodup.filter _) (hp.once.filter _)).mpr fun r => ?_
    rw [List.mem_filter, List.mem_filter, decide_eq_true_iff]
    exact and_congr_left fun hold => ⟨fun hr => htracked r hr hold, hp.members r⟩
  have hover : s.herd.tracked.toList.countP s.herd.passesOver =
      s.herd.tracked.toList.countP fun e => ¬ decide (s.herd.Aged s'.herd e) = true :=
    List.countP_congr fun e he => by simp [haged e he]
  rw [hcounted, hover, UInt64.add_assoc, ← UInt64.ofNat_add, List.countP_eq_length_filter, hperm.length_eq,
    ← List.countP_eq_length_filter, ← List.length_eq_countP_add_countP]

section Offered

variable {enable : Bool} {turn : Turn Key} (hp : s.herd.Peopled mobs) (hs : s.herd.Since s'.herd mobs)
  (hoffered : ∀ e ∈ s.herd.tracked.toList,
    s.herd.Offered (shareOf world enable turn s (partOf world enable turn s e)) [] s'.herd e)

include hp hs hoffered

/-- A rider grows older along with its vehicle, if this one is not due. -/
theorem aged_of_not_due (he : e ∈ s.herd.tracked.toList) (hriding : s.herd.vehicleOf e = some v)
    (hflat : s.herd.vehicleOf v = none) (hdue : ¬ s.herd.Due v) : s.herd.Aged s'.herd e := by
  have hv := hp.vehicles e he v hriding
  exact hs.aged_along (hp.members e he) hv ((hoffered v hv).own hflat).1 hriding hdue hflat

omit hs in
/-- A rider whose vehicle is due grows older if it is offered its own tick later. -/
theorem aged_iff_of_due (he : e ∈ s.herd.tracked.toList) (hriding : s.herd.vehicleOf e = some v)
    (hflat : s.herd.vehicleOf v = none) (hdue : s.herd.Due v)
    (hpart : partOf world enable turn s e = partOf world enable turn s v) :
    s.herd.Aged s'.herd e ↔ [v, e].Sublist s.herd.tracked.toList := by
  have hv : v ∈ shareOf world enable turn s (partOf world enable turn s e) :=
    List.mem_filter.mpr ⟨hp.vehicles e he v hriding, decide_eq_true hpart.symm⟩
  rw [← pair_sublist_shareOf enable turn hpart.symm rfl]
  exact ((hoffered e he).late v hv List.not_mem_nil hriding hflat hdue).2

/-- Where nobody rides a rider, all tracked mobs are older except those that are passed over. -/
theorem aged_iff_passesOver (hflat : ∀ e ∈ s.herd.tracked.toList, ∀ v, s.herd.vehicleOf e = some v →
      s.herd.vehicleOf v = none ∧ (s.herd.Due v → partOf world enable turn s e = partOf world enable turn s v))
    (he : e ∈ s.herd.tracked.toList) : s.herd.Aged s'.herd e ↔ s.herd.passesOver e = false := by
  cases hriding : s.herd.vehicleOf e with
  | none => simp [passesOver, hriding, ((hoffered e he).own hriding).1.2]
  | some v =>
    obtain ⟨hnone, hpart⟩ := hflat e he v hriding
    by_cases hdue : s.herd.Due v
    · simp [passesOver, hriding, hdue, aged_iff_of_due hp hoffered he hriding hnone hdue (hpart hdue)]
    · simp [passesOver, hriding, hdue, aged_of_not_due hp hs hoffered he hriding hnone hdue]

end Offered

/-- A tick returns, having offered all tracked mobs their ticks. -/
theorem tick_offered (hp : s.herd.Peopled mobs) (enable : Bool) (plan : Plan) (turn : Turn Key) :
    let s' := (tick world enable plan turn s).state
    (∃ summary, (tick world enable plan turn s).summary = .ok summary) ∧ s.herd.Since s'.herd mobs ∧
      s'.covered = s.covered + UInt64.ofNat (mobs.countP (s.herd.Aged s'.herd ·)) ∧
      ∀ e ∈ s.herd.tracked.toList,
        s.herd.Offered (shareOf world enable turn s (partOf world enable turn s e)) [] s'.herd e := by
  obtain ⟨summary, hok, ⟨hs, hcounted⟩, -, hdone⟩ := tick_keeps (covering_tickTerms enable turn hp) plan
  exact ⟨⟨summary, hok⟩, hs, hcounted, fun e he =>
    (hdone e he).offered e (List.mem_filter.mpr ⟨he, decide_eq_true rfl⟩) List.not_mem_nil⟩

/-- Where nobody rides a rider and riders are tracked, the totals count all tracked mobs that are not passed over. -/
theorem tick_total (hp : s.herd.Peopled mobs) (enable : Bool) (plan : Plan) (turn : Turn Key)
    (hflat : ∀ e ∈ s.herd.tracked.toList, ∀ v, s.herd.vehicleOf e = some v →
      s.herd.vehicleOf v = none ∧ (s.herd.Due v → partOf world enable turn s e = partOf world enable turn s v))
    (hriders : ∀ r ∈ mobs, ∀ v ∈ s.herd.tracked.toList, s.herd.vehicleOf r = some v → r ∈ s.herd.tracked.toList) :
    (tick world enable plan turn s).state.covered + UInt64.ofNat (s.herd.tracked.toList.countP s.herd.passesOver) =
      s.covered + UInt64.ofNat s.herd.tracked.toList.length := by
  obtain ⟨-, hs, hcounted, hoffered⟩ := tick_offered hp enable plan turn
  refine total_of_counted hp hcounted (fun r hr haged => ?_) fun e he => aged_iff_passesOver hp hs hoffered hflat he
  rcases hs.tended r hr haged with hr' | ⟨v, hv, hriding⟩
  · exact hr'
  · exact hriders r hr v hv hriding

/-- A tick returns, and covers the herd so. -/
theorem tick_covered (hp : s.herd.Peopled mobs) (enable : Bool) (plan : Plan) (turn : Turn Key) :
    (∃ summary, (tick world enable plan turn s).summary = .ok summary) ∧
      Covered s (tick world enable plan turn s).state mobs (partOf world enable turn s) := by
  obtain ⟨hok, hs, hcounted, hoffered⟩ := tick_offered hp enable plan turn
  refine ⟨hok, hs.age, hcounted, fun e he hflat => ((hoffered e he).own hflat).1.2.mpr trivial,
    fun e he v hriding hflat hdue => aged_of_not_due hp hs hoffered he hriding hflat hdue,
    fun e he v hriding hflat hdue hpart => aged_iff_of_due hp hoffered he hriding hflat hdue hpart,
    fun e he v u hv hu hflat hu' hv' hnext => ?_, tick_total hp enable plan turn⟩
  have hvt := hp.vehicles e he v hv
  exact hs.not_aged_stacked (hp.members e he) (hp.members v hvt) hvt (hp.vehicles v hvt u hu) hv hu hflat hv' hnext hu'

/-- Every world that is reached has such a herd once it is reaped. -/
theorem Reached.peopled {first : UInt32} (h : Reached first s) :
    s.reap.2.herd.Peopled (handles first s.herd.mobs.size) := by
  have hs : s.herd.reap.2.Sound first := h.sound.reap
  have hcrowd : (· ∈ handles first s.herd.mobs.size) = Numbered first s.herd.mobs.size :=
    funext fun _ => propext mem_handles
  refine ⟨handles_nodup _ _, hcrowd ▸ hs.linked, fun r hr => mem_handles.mpr (hs.members r hr), hs.faithful.nodup,
    fun r hr => h.sound.there_reap hr, fun r hr v hv => hs.ridden (hs.members r hr) hv⟩

/-- There nobody rides a rider, and a part that offers a rider its tick offers its vehicle one, too. -/
theorem Reached.beside {first : UInt32} (h : Reached first s) (enable : Bool) (turn : Turn Key)
    (he : e ∈ s.herd.tracked.toList) (hriding : s.herd.vehicleOf e = some v) :
    s.herd.vehicleOf v = none ∧ partOf world enable turn s e = partOf world enable turn s v := by
  have hs := h.sound
  have hcell : s.herd.cellOf e = s.herd.cellOf v := by
    rw [cellOf_eq, cellOf_eq, hs.together (hs.members e he) hriding]
  refine ⟨hs.flat (hs.members e he) hriding, ?_⟩
  simp only [partOf, goesTo, Batch.destination, world, hcell]

/-- In a world that is reached and reaped, a tick makes all tracked mobs older except those that are passed over; and the
totals count just these if the riders of tracked mobs are tracked, too. -/
theorem Reached.tick_counts {first : UInt32} (h : Reached first s) (enable : Bool) (plan : Plan) (turn : Turn Key) :
    let start := s.reap.2
    let s' := (tick world enable plan turn start).state
    (∃ summary, (tick world enable plan turn start).summary = .ok summary) ∧
      (∀ e ∈ start.herd.tracked.toList, start.herd.Aged s'.herd e ↔ start.herd.passesOver e = false) ∧
      ((∀ r ∈ handles first s.herd.mobs.size, ∀ v ∈ start.herd.tracked.toList, start.herd.vehicleOf r = some v →
          r ∈ start.herd.tracked.toList) →
        s'.covered + UInt64.ofNat (start.herd.tracked.toList.countP start.herd.passesOver) =
          start.covered + UInt64.ofNat start.herd.tracked.toList.length) := by
  intro start s'
  have hflat : ∀ e ∈ start.herd.tracked.toList, ∀ v, start.herd.vehicleOf e = some v → start.herd.vehicleOf v = none ∧
      (start.herd.Due v → partOf world enable turn start e = partOf world enable turn start v) := fun e he v hriding =>
    have ⟨hnone, hpart⟩ := h.reaped.beside enable turn he hriding
    ⟨hnone, fun _ => hpart⟩
  obtain ⟨hok, hs, -, hoffered⟩ := tick_offered h.peopled enable plan turn
  exact ⟨hok, fun e he => aged_iff_passesOver h.peopled hs hoffered hflat he,
    tick_total h.peopled enable plan turn hflat⟩

end Tick

/-! ## A ride that ends -/

/-- A tick that sees nobody near. -/
def Turn.unseen : Turn Key := ⟨[], [], ⟨2, 3⟩, .unit⟩

/-- A world with a mob and its rider, both tracked. -/
def State.riding : State := State.mounted.reap.2

theorem peopled_riding : State.riding.herd.Peopled (handles 0 2) := by
  have hsize : State.mounted.herd.mobs.size = 2 := by decide +kernel
  exact hsize ▸ reached_mounted.peopled

theorem tick_covered_riding :
    let s' := (tick world true .inOrder Turn.unseen .riding).state
    State.riding.herd.Peopled (handles 0 2) ∧
      Covered .riding s' (handles 0 2) (partOf world true Turn.unseen .riding) ∧
      State.riding.herd.vehicleOf ⟨1, 1⟩ = some ⟨0, 0⟩ ∧ s'.covered = State.riding.covered + 2 :=
  ⟨peopled_riding, (tick_covered peopled_riding true .inOrder Turn.unseen).2, by decide +kernel, by decide +kernel⟩

/-- The same when the mob has lived its time. -/
def State.parting : State :=
  { State.riding with herd := State.riding.herd.update ⟨0, 0⟩ fun m => { m with age := 156 } }

/-- Both are tracked and there, but only one of them is counted: the rider is offered its tick first. -/
theorem tick_not_covered :
    State.parting.herd.Peopled (handles 0 2) ∧ State.parting.herd.tracked.toList = [⟨1, 1⟩, ⟨0, 0⟩] ∧
      State.parting.herd.vehicleOf ⟨1, 1⟩ = some ⟨0, 0⟩ ∧
      (tick world true .inOrder Turn.unseen .parting).state.covered = State.parting.covered + 1 :=
  ⟨peopled_riding.withAge _ _, by decide +kernel, by decide +kernel, by decide +kernel⟩

end GridTick.Synthetic
