import GridTick.Proofs.Tick.Batch
import GridTick.Proofs.Tick.Histories

/-!
# GridTick.Proofs.Tick.EntityCoverage — every tracked entity is offered its tick once, unless its region fails

The batch fixes who goes where before anything is called, so what the callbacks do to positions and to the tracked
entities changes nothing in it.  Each origin offers a prefix of its own entities, and no entity has two origins.

* `Served.offered_isPrefix`: what an origin offers.
* `Served.count_offered`: an entity is offered by its own origin alone.
* `EntityCoverage`, `tick_entityCoverage`: the coverage, with regions or without.
-/

namespace GridTick

variable {σ C E : Type}

theorem tickAll_offered {o : Origin} {speed : UInt32} {chunks : List C} {H : List (Event C E)}
    (h : Program.Ends o (Program.tickAll speed chunks) H (.ok ())) : offered H = [] := by
  rcases Program.tickAll_ends h with ⟨rfl, -⟩ | ⟨_, _, _, _, -, -, hr⟩
  · refine offered_eq_nil fun ev hev => ?_
    obtain ⟨_, -, rfl⟩ := List.mem_map.mp hev
    rfl
  · cases hr

theorem offerAll_offered {o : Origin} {entities : List E} {H : List (Event C E)}
    (h : Program.Ends o (Program.offerAll entities) H (.ok ())) : offered H = entities := by
  rcases Program.offerAll_ends h with ⟨-, ⟨-, hall⟩ | ⟨_, _, _, _, _, hr, -⟩⟩
  · exact hall
  · cases hr

theorem sweep_offered {speed : UInt32} {chunks : List C} {entities : List E} {H : List (Event C E)}
    (h : Program.Ends .caller (sweep speed chunks entities) H (.ok ())) : offered H = entities := by
  rw [sweep, Program.bind_eq] at h
  rcases h.bind_inv with ⟨_, H₁, H₂, rfl, h₁, h₂⟩ | ⟨_, hr, -⟩
  · rw [offered_append, tickAll_offered h₁, offerAll_offered h₂, List.nil_append]
  · cases hr

/-! ## Who offers what -/

theorem count_flatMap_of_unique {α β : Type} [DecidableEq β] {l : List α} {f : α → List β} {a : α} {b : β}
    (hl : l.Nodup) (ha : a ∈ l) (h : ∀ a' ∈ l, a' ≠ a → b ∉ f a') : (l.flatMap f).count b = (f a).count b := by
  induction l with
  | nil => cases ha
  | cons x rest ih =>
    obtain ⟨hx, hrest⟩ := List.nodup_cons.mp hl
    rw [List.flatMap_cons, List.count_append]
    rcases List.mem_cons.mp ha with rfl | ha
    · have hzero : (rest.flatMap f).count b = 0 := by
        rw [List.count_eq_zero, List.mem_flatMap]
        rintro ⟨a', ha', hb⟩
        exact h a' (List.mem_cons_of_mem _ ha') (fun heq => hx (heq ▸ ha')) hb
      rw [hzero, Nat.add_zero]
    · have hne : x ≠ a := fun heq => hx (heq ▸ ha)
      rw [List.count_eq_zero_of_not_mem (h x (List.mem_cons_self ..) hne), Nat.zero_add]
      exact ih hrest ha fun a' ha' => h a' (List.mem_cons_of_mem _ ha')

section Tick

variable {w : World σ C E} {plan : Plan} {speed : UInt32} {loaded : List C} {outcomes : List Outcome}
  {events : List (Event C E)} {cellOf : E → Cell} {tracked : List E} {agents : List Cell} {view : UInt32}

theorem Outcome.Serves.offers {job : Region E × Nat} {o : Outcome} (h : o.Serves plan speed events job) :
    Offers (jobOrigin job) job.1.entities.toList (historyOf (jobOrigin job) events) (endOf o.fault) :=
  (Program.regionTask_ends h.ends).offers

/-- An origin offers a prefix of the entities that go to its region, or to none if it is the calling thread. -/
theorem Served.offered_isPrefix (h : Served w plan speed loaded (buildBatch cellOf tracked agents view) outcomes events)
    {o : Origin} (ho : o ∈ (buildBatch cellOf tracked agents view).origins) :
    offered (historyOf o events) <+: tracked.filter fun e => goesTo cellOf agents view e = o.place? := by
  rcases Batch.mem_origins ho with rfl | ⟨i, r, hr, hjob, rfl⟩
  · rw [sweep_offered h.caller, buildBatch_unassigned]
    exact List.prefix_rfl
  · obtain ⟨o, -, hserves⟩ := h.report hjob
    have hstart := hserves.offers.isPrefix
    rwa [buildBatch_entities hr] at hstart

theorem Served.offered_perm {batch : Batch E} (h : Served w plan speed loaded batch outcomes events) :
    (batch.origins.flatMap fun o => offered (historyOf o events)).Perm (offered events) :=
  perm_filterMap_histories events (Batch.origins_nodup batch) h.origins fun _ => offered?_of_nobody

/-- An entity that goes to the region of an origin is offered by that origin alone. -/
theorem Served.count_offered [DecidableEq E]
    (h : Served w plan speed loaded (buildBatch cellOf tracked agents view) outcomes events) {o : Origin}
    (ho : o ∈ (buildBatch cellOf tracked agents view).origins) {e : E}
    (he : goesTo cellOf agents view e = o.place?) :
    (offered events).count e = (offered (historyOf o events)).count e := by
  rw [← h.offered_perm.count_eq]
  refine count_flatMap_of_unique (Batch.origins_nodup _) ho fun o' ho' hne hmem => ?_
  have hgoes := (List.mem_filter.mp ((h.offered_isPrefix ho').subset hmem)).2
  exact hne (Batch.origin_eq ho' ho ((of_decide_eq_true hgoes).symm.trans he))

theorem Served.count_offered_le [DecidableEq E]
    (h : Served w plan speed loaded (buildBatch cellOf tracked agents view) outcomes events) (e : E) :
    (offered events).count e ≤ tracked.count e := by
  by_cases hmem : e ∈ offered events
  · obtain ⟨o, ho, hmem⟩ := List.mem_flatMap.mp (h.offered_perm.symm.subset hmem)
    have hstart := h.offered_isPrefix ho
    have hgoes := of_decide_eq_true (List.mem_filter.mp (hstart.subset hmem)).2
    rw [h.count_offered ho hgoes]
    exact (hstart.sublist.trans List.filter_sublist).count_le e
  · rw [List.count_eq_zero_of_not_mem hmem]
    exact Nat.zero_le _

/-- An entity of an origin that has offered all of its own is offered as often as it is tracked. -/
theorem Served.count_offered_of_all [DecidableEq E]
    (h : Served w plan speed loaded (buildBatch cellOf tracked agents view) outcomes events) {o : Origin}
    (ho : o ∈ (buildBatch cellOf tracked agents view).origins)
    (hall : offered (historyOf o events) = tracked.filter fun e => goesTo cellOf agents view e = o.place?) {e : E}
    (he : goesTo cellOf agents view e = o.place?) : (offered events).count e = tracked.count e := by
  rw [h.count_offered ho he, hall, List.count_filter (by simpa using he)]

/-- The region of a report, and what it has offered. -/
theorem Served.report_offers
    (h : Served w plan speed loaded (buildBatch cellOf tracked agents view) outcomes events) {o : Outcome}
    (ho : o ∈ outcomes) {r : Region E} (hr : (buildBatch cellOf tracked agents view).regions[o.place]? = some r) :
    Offers (.task o.place r.id) r.entities.toList (historyOf (.task o.place r.id) events) (endOf o.fault) := by
  obtain ⟨⟨r', i⟩, hjob, hserves⟩ := h.reports o ho
  have hr' := (mem_jobs.mp hjob).1
  have hi : o.place = i := hserves.place
  rw [Array.getElem?_toList, ← hi, hr] at hr'
  obtain rfl := Option.some.inj hr'
  obtain rfl := hi
  exact hserves.offers

end Tick

/-! ## Coverage -/

/-- What a tick with regions does for the entities of its batch.  Each is in one region or in none, and is offered at
most as often as it is tracked; as often, if it is in no region or its region completes; and otherwise only by the task
of its region, which offers its entities in tracking order up to the fault. -/
structure EntityCoverage [DecidableEq E] (tracked : List E) (batch : Batch E) (outcomes : List Outcome)
    (events : List (Event C E)) : Prop where
  parts : batch.contents.Perm tracked
  ordered : ∀ (i : Nat) r, batch.regions[i]? = some r → r.entities.toList.Sublist tracked
  reported : (outcomes.map Outcome.place).Perm (List.range batch.regions.size)
  bounded : ∀ e, (offered events).count e ≤ tracked.count e
  unassigned : ∀ e ∈ batch.unassigned, (offered events).count e = tracked.count e
  completed : ∀ o ∈ outcomes, o.fault = none → ∀ r, batch.regions[o.place]? = some r → ∀ e ∈ r.entities,
    (offered events).count e = tracked.count e
  apart : ∀ (i : Nat) r, batch.regions[i]? = some r → ∀ e ∈ r.entities,
    (offered events).count e = (offered (historyOf (.task i r.id) events)).count e
  offers : ∀ o ∈ outcomes, ∀ r, batch.regions[o.place]? = some r →
    Offers (.task o.place r.id) r.entities.toList (historyOf (.task o.place r.id) events) (endOf o.fault)

theorem Served.entityCoverage [DecidableEq E] {w : World σ C E} {plan : Plan} {speed : UInt32} {loaded : List C}
    {outcomes : List Outcome} {events : List (Event C E)} {cellOf : E → Cell} {tracked : List E} {agents : List Cell}
    {view : UInt32} (h : Served w plan speed loaded (buildBatch cellOf tracked agents view) outcomes events) :
    EntityCoverage tracked (buildBatch cellOf tracked agents view) outcomes events := by
  have hcaller : Origin.caller ∈ (buildBatch cellOf tracked agents view).origins := List.mem_cons_self ..
  have htask : ∀ {i : Nat} {r}, (buildBatch cellOf tracked agents view).regions[i]? = some r →
      Origin.task i r.id ∈ (buildBatch cellOf tracked agents view).origins := by
    intro i r hr
    refine List.mem_cons_of_mem _ (List.mem_map.mpr ⟨(r, i), mem_jobs.mpr ⟨?_, buildBatch_nonempty hr⟩, rfl⟩)
    rwa [Array.getElem?_toList]
  have hgoes : ∀ {i : Nat} {r}, (buildBatch cellOf tracked agents view).regions[i]? = some r → ∀ e ∈ r.entities,
      goesTo cellOf agents view e = some i := by
    intro i r hr e he
    rw [← Array.mem_toList_iff, buildBatch_entities hr] at he
    exact of_decide_eq_true (List.mem_filter.mp he).2
  refine ⟨buildBatch_contents, fun i r hr => ?_, ?_, h.count_offered_le, fun e he => ?_, fun o ho hok r hr e he => ?_,
    fun i r hr e he => h.count_offered (htask hr) (hgoes hr e he), fun o ho r hr => h.report_offers ho hr⟩
  · rw [buildBatch_entities hr]
    exact List.filter_sublist
  · rw [← buildBatch_places]
    exact h.places
  · rw [← Array.mem_toList_iff, buildBatch_unassigned] at he
    refine h.count_offered_of_all hcaller ?_ (of_decide_eq_true (List.mem_filter.mp he).2)
    rw [sweep_offered h.caller, buildBatch_unassigned]
    rfl
  · have hoffers := h.report_offers ho hr
    rw [hok] at hoffers
    refine h.count_offered_of_all (htask hr) ?_ (hgoes hr e he)
    cases hoffers with
    | all hall => rw [hall, buildBatch_entities hr]; rfl

/-- Whatever faults and whatever the callbacks do, a tick with regions that returns covers the entities tracked when it
began, and one without regions offers those tracked after the chunk ticks, in order. -/
theorem tick_entityCoverage [DecidableEq E] (w : World σ C E) (plan : Plan) (turn : Turn C) (s : σ) :
    (∀ summary, (tick w true plan turn s).summary = .ok summary →
      let batch := buildBatch (w.cellOf s) (w.tracked s) turn.agents turn.settings.viewDistance
      let outcomes := (dispatch w plan turn.settings.randomTickSpeed batch.regions.toList s #[]).1
      EntityCoverage (w.tracked s) batch outcomes (tick w true plan turn s).events.toList) ∧
    ∀ summary, (tick w false plan turn s).summary = .ok summary →
      offered (tick w false plan turn s).events.toList = w.tracked (afterChunks w turn s) := by
  refine ⟨fun summary h => (tick_served h).entityCoverage, fun summary h => ?_⟩
  obtain ⟨H₁, H₂, lines, hevents, h₁, h₂, hnobody⟩ := tick_sequential h
  rw [hevents, offered_append, offered_append, tickAll_offered h₁, offerAll_offered h₂,
    offered_eq_nil fun e he => offered?_of_nobody (hnobody e he), List.nil_append, List.append_nil]

/-- The region stumbles over its second entity, in the contract; without regions nothing stumbles. -/
theorem tick_entityCoverage_stumbling :
    let w := World.stumbling 25
    let turn := Turn.alone [Cell.key ⟨0, 0⟩]
    ((tick w true .inOrder turn 0).summary = .ok ⟨1, 1, 9, 0, 0, 2, 1⟩ ∧
      ∀ e, (offered (tick w true .inOrder turn 0).events.toList).count e ≤ [0, 1, 9].count e) ∧
    (tick w false .inOrder turn 0).summary = .ok ⟨0, 0, 0, 1, 0, 0, 3⟩ ∧
      offered (tick w false .inOrder turn 0).events.toList = [0, 1, 9] := by
  intro w turn
  have h : (tick w true .inOrder turn 0).summary = .ok ⟨1, 1, 9, 0, 0, 2, 1⟩ := by
    have hdispatch := dispatch_alone 25
    simp only [w, turn, tick, tickRegions, Turn.alone, World.stumbling, if_true] at hdispatch ⊢
    simp only [buildBatch_alone, hdispatch]
    decide +kernel
  have h' : (tick w false .inOrder turn 0).summary = .ok ⟨0, 0, 0, 1, 0, 0, 3⟩ := by decide +kernel
  obtain ⟨hregions, hplain⟩ := tick_entityCoverage w .inOrder turn 0
  exact ⟨⟨h, (hregions _ h).bounded⟩, h', hplain _ h'⟩

end GridTick
