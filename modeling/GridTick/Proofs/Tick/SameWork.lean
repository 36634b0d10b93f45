import GridTick.Proofs.Tick.Isolation

/-!
# GridTick.Proofs.Tick.SameWork — a tick with regions does the work of a tick without

Without regions the calling thread ticks every loaded chunk and offers every tracked entity its tick.  With regions the
same work is divided: windows, regions and look-ups decide who ticks a chunk, the index decides who offers an entity
its tick, and the sweep takes what is left.  In a world where nothing faults the parts add up to the whole.

* `World.Calm`: what is asked of the world.
* `chunkWork`: the chunk ticks of a history, by key and speed.
* `Served.speed_eq`, `Served.offered_contents`: what the parts of a tick with regions have in common.
* `World.Calm.chunkWork_regions`, `World.Calm.offered_regions`: the work of a tick with regions.
* `World.Calm.chunkWork_sequential`, `World.Calm.offered_sequential`: the work of one without.
* `tick_sameWork`: they are the same.
-/

namespace GridTick

variable {σ C E α : Type}

/-- Nothing faults; look-ups find chunks by their own keys, and only keys of loaded chunks; and chunk ticks leave the
tracked entities as they are. -/
structure World.Calm (w : World σ C E) (loaded : List C) : Prop where
  answers : ∀ (c : Call C E) (s : σ), ∃ a, (w.answer c s).1 = .ok a
  finds : ∀ k s c, (w.answer (.lookup k) s).1 = .ok (some c) → w.keyOf c = k ∧ k ∈ loaded.map w.keyOf
  tracks : ∀ c speed s, w.tracked (w.answer (.tickChunk c speed) s).2 = w.tracked s

/-- The chunk ticks that returned: the key of each chunk, and the speed. -/
def chunkWork (w : World σ C E) (events : List (Event C E)) : List (Key × UInt32) :=
  (events.filterMap Event.chunkTick?).map fun t => (w.keyOf t.2.1, t.2.2)

theorem chunkWork_eq (w : World σ C E) {events : List (Event C E)} {speed : UInt32}
    (h : ∀ t ∈ events.filterMap Event.chunkTick?, t.2.2 = speed) :
    chunkWork w events = (tickedKeys w events).map fun k => (k, speed) := by
  rw [chunkWork, tickedKeys, List.map_map]
  refine List.map_congr_left fun t ht => ?_
  show (w.keyOf t.2.1, t.2.2) = (w.keyOf t.2.1, speed)
  rw [h t ht]

/-! ## What the parts of a tick have in common -/

section Served

variable {w : World σ C E} {plan : Plan} {speed : UInt32} {loaded : List C} {batch : Batch E}
  {outcomes : List Outcome} {events : List (Event C E)}

/-- Regions and sweep tick their chunks at one speed. -/
theorem Served.speed_eq (h : Served w plan speed loaded batch outcomes events) :
    ∀ t ∈ events.filterMap Event.chunkTick?, t.2.2 = speed := by
  intro t ht
  have hperm := perm_filterMap_histories events (Batch.origins_nodup batch) h.origins fun _ => chunkTick?_of_nobody
  obtain ⟨o, ho, ht⟩ := List.mem_flatMap.mp (hperm.symm.subset ht)
  rcases Batch.mem_origins ho with rfl | ⟨i, r, -, hjob, rfl⟩
  · rw [sweep_chunkTicks h.caller] at ht
    obtain ⟨c, -, rfl⟩ := List.mem_map.mp ht
    rfl
  · obtain ⟨_, -, hserves⟩ := h.report hjob
    obtain ⟨done, -, -, -, hticks, -⟩ := hserves.done
    have ht' : t ∈ done.map fun p => ((jobOrigin (r, i)).lane, p.2, speed) := hticks ▸ ht
    obtain ⟨p, -, rfl⟩ := List.mem_map.mp ht'
    rfl

/-- If no task has failed, all that the batch holds has been offered. -/
theorem Served.offered_contents (h : Served w plan speed loaded batch outcomes events)
    (hfaultless : ∀ o ∈ outcomes, o.fault = none) (hjobs : jobs batch.regions.toList = batch.numbered) :
    (offered events).Perm batch.contents := by
  have htask : ∀ job ∈ jobs batch.regions.toList, offered (historyOf (jobOrigin job) events) = job.1.entities.toList := by
    intro job hjob
    obtain ⟨o, ho, hserves⟩ := h.report hjob
    have hoffers := hserves.offers
    rw [hfaultless o ho] at hoffers
    cases hoffers with
    | all hall => exact hall
  exact h.perm_contents hjobs (g := id) rfl (fun _ _ => rfl) (fun _ => offered?_of_nobody) (sweep_offered h.caller) htask

end Served

/-! ## Worlds in which nothing faults -/

section Calm

variable {w : World σ C E} {loaded : List C} {plan : Plan} {turn : Turn C} {s : σ}

theorem World.Calm.findsByKey (h : w.Calm loaded) : w.FindsByKey := fun k s c hc => (h.finds k s c hc).1

theorem World.Calm.run_ok (h : w.Calm loaded) (o : Origin) (p : Program C E α) (t : Trail σ C E) :
    ∃ a, (p.run w o t).1 = .ok a := by
  induction p generalizing t with
  | done a => exact ⟨a, rfl⟩
  | mark m rest ih => exact ih _
  | ask c next ih =>
    obtain ⟨s, keys, events⟩ := t
    obtain ⟨a, ha⟩ := h.answers c s
    rcases hans : w.answer c s with ⟨answer, s'⟩
    rw [hans] at ha
    obtain rfl : answer = .ok a := ha
    simpa only [Program.run, hans] using ih a ⟨s', keys, events.push (.called o c (.ok a))⟩

/-- No event has a fault. -/
theorem World.Calm.fault?_eq_none (h : w.Calm loaded) {e : Event C E} (he : w.Gives e) : e.fault? = none := by
  rcases e with ⟨o, c, answer⟩ | _ | _ | _
  · obtain ⟨s, hs⟩ := he
    obtain ⟨a, ha⟩ := h.answers c s
    obtain rfl : answer = .ok a := hs.symm.trans ha
    rfl
  · rfl
  · rfl
  · rfl

theorem World.Calm.faultOf_eq_none (h : w.Calm loaded) {events : List (Event C E)} (hgiven : ∀ e ∈ events, w.Gives e)
    (job : Region E × Nat) : faultOf events job = none :=
  List.findSome?_eq_none_iff.mpr fun e he => h.fault?_eq_none (hgiven e (List.mem_of_mem_filter he))

theorem World.Calm.tick_regions_ok (h : w.Calm loaded) (plan : Plan) (turn : Turn C) (s : σ) :
    (tick w true plan turn s).summary = .ok (Summary.ofPhases w plan turn s) := by
  obtain ⟨a, ha⟩ := h.run_ok .caller
    (sweep turn.settings.randomTickSpeed (leftOver w plan turn s) (batchOf w turn s).unassigned.toList)
    ⟨(dispatched w plan turn s).2.1, ∅, #[]⟩
  have hswept : (swept w plan turn s).1 = .ok a := ha
  rw [tick_regions.1, hswept]
  rfl

theorem World.Calm.tick_sequential_ok (h : w.Calm loaded) (plan : Plan) (turn : Turn C) (s : σ) :
    ∃ summary, (tick w false plan turn s).summary = .ok summary := by
  obtain ⟨_, hticks⟩ := h.run_ok .caller
    (Program.tickAll turn.settings.randomTickSpeed turn.loaded : Program C E Unit) ⟨s, ∅, #[]⟩
  rcases hran : (Program.tickAll turn.settings.randomTickSpeed turn.loaded : Program C E Unit).run w .caller
    ⟨s, ∅, #[]⟩ with ⟨result, s', recorded, events⟩
  rw [hran] at hticks
  obtain ⟨_, hoffers⟩ := h.run_ok .caller (Program.offerAll (w.tracked s')) ⟨s', recorded, events⟩
  rcases hran' : (Program.offerAll (w.tracked s')).run w .caller ⟨s', recorded, events⟩ with ⟨result', trail⟩
  rw [hran'] at hoffers
  dsimp only at hticks hoffers
  subst hticks hoffers
  simp [tick, tickSequential, hran, hran']

/-! ## The work of a tick with regions -/

theorem World.Calm.tickedKeys_regions (h : w.Calm turn.loaded) (hloaded : (turn.loaded.map w.keyOf).Nodup) (plan : Plan)
    (s : σ) :
    (tickedKeys w (tick w true plan turn s).events.toList).Perm (turn.loaded.map w.keyOf) := by
  have hserved := tick_served (h.tick_regions_ok plan turn s)
  refine (List.perm_ext_iff_of_nodup (hserved.tickedKeys_nodup h.findsByKey hloaded) hloaded).mpr fun k => ?_
  constructor
  · intro hk
    by_contra hnot
    -- a key that is not loaded was looked up, but look-ups find loaded chunks only
    obtain ⟨-, place, id, c, hlook⟩ := hserved.of_not_loaded h.findsByKey hnot hk
    obtain ⟨s', hs'⟩ := hserved.given _ hlook
    exact hnot (h.finds k s' c hs').2
  · intro hk
    obtain ⟨c, hc, rfl⟩ := List.mem_map.mp hk
    exact hserved.mem_tickedKeys h.findsByKey hc

theorem World.Calm.chunkWork_regions (h : w.Calm turn.loaded) (hloaded : (turn.loaded.map w.keyOf).Nodup) :
    (chunkWork w (tick w true plan turn s).events.toList).Perm
      (turn.loaded.map fun c => (w.keyOf c, turn.settings.randomTickSpeed)) := by
  have hserved := tick_served (h.tick_regions_ok plan turn s)
  have hperm := (h.tickedKeys_regions hloaded plan s).map fun k => (k, turn.settings.randomTickSpeed)
  rw [chunkWork_eq w hserved.speed_eq]
  rwa [List.map_map] at hperm

theorem World.Calm.offered_regions (h : w.Calm loaded) :
    (offered (tick w true plan turn s).events.toList).Perm (w.tracked s) := by
  have hserved := tick_served (h.tick_regions_ok plan turn s)
  refine (hserved.offered_contents (fun o ho => ?_) (jobs_batchOf w turn s)).trans buildBatch_contents
  obtain ⟨job, -, hserves⟩ := hserved.reports o ho
  rw [hserves.eq_reportOf]
  exact h.faultOf_eq_none hserved.given job

/-! ## The work of a tick without regions -/

theorem World.Calm.tracked_afterChunks (h : w.Calm loaded) (turn : Turn C) (s : σ) :
    w.tracked (afterChunks w turn s) = w.tracked s :=
  tracked_run_tickAll (fun c _ => h.tracks c _) .caller ⟨s, ∅, #[]⟩

theorem World.Calm.sequential_ends (h : w.Calm loaded) (plan : Plan) (turn : Turn C) (s : σ) :
    ∃ H₁ H₂ lines, (tick w false plan turn s).events.toList = H₁ ++ H₂ ++ lines ∧
      Program.Ends .caller (Program.tickAll turn.settings.randomTickSpeed turn.loaded) H₁ (.ok ()) ∧
      Program.Ends .caller (Program.offerAll (w.tracked s)) H₂ (.ok ()) ∧ ∀ e ∈ lines, e.origin? = none := by
  obtain ⟨summary, hok⟩ := h.tick_sequential_ok plan turn s
  have hends := tick_sequential hok
  rwa [h.tracked_afterChunks] at hends

theorem World.Calm.chunkWork_sequential (h : w.Calm loaded) : chunkWork w (tick w false plan turn s).events.toList =
    turn.loaded.map fun c => (w.keyOf c, turn.settings.randomTickSpeed) := by
  obtain ⟨H₁, H₂, lines, hevents, h₁, h₂, hnobody⟩ := h.sequential_ends plan turn s
  have hoffers : H₂.filterMap Event.chunkTick? = [] :=
    List.filterMap_eq_nil_iff.mpr fun e he => chunkTick?_of_ofOffer ((Program.offerAll_ends h₂).1 e he)
  have hlines : lines.filterMap Event.chunkTick? = [] :=
    List.filterMap_eq_nil_iff.mpr fun e he => chunkTick?_of_nobody (hnobody e he)
  rw [chunkWork, hevents, List.filterMap_append, List.filterMap_append, hoffers, hlines, List.append_nil,
    List.append_nil]
  rcases Program.tickAll_ends h₁ with ⟨rfl, -⟩ | ⟨_, _, _, _, -, -, hr⟩
  · rw [List.filterMap_map, List.map_filterMap]
    exact congrFun List.filterMap_eq_map turn.loaded
  · cases hr

theorem World.Calm.offered_sequential (h : w.Calm loaded) :
    offered (tick w false plan turn s).events.toList = w.tracked s := by
  obtain ⟨H₁, H₂, lines, hevents, h₁, h₂, hnobody⟩ := h.sequential_ends plan turn s
  rw [hevents, offered_append, offered_append, tickAll_offered h₁, offerAll_offered h₂,
    offered_eq_nil fun e he => offered?_of_nobody (hnobody e he), List.nil_append, List.append_nil]

/-! ## The counts -/

theorem World.Calm.summary_sequential (h : w.Calm loaded) (plan : Plan) (turn : Turn C) (s : σ) :
    (tick w false plan turn s).summary = .ok ⟨0, 0, 0, turn.loaded.length, 0, 0, (w.tracked s).length⟩ := by
  obtain ⟨summary, hok⟩ := h.tick_sequential_ok plan turn s
  have hsummary : (tickSequential w turn s).1 = .ok summary := by
    rcases hr : tickSequential w turn s with ⟨fault | summary', s', events⟩
    · simp [tick, hr] at hok
    · simpa [tick, hr] using hok
  rw [hok, summary_of_tickSequential hsummary, h.tracked_afterChunks]

theorem World.Calm.sum_chunks (h : w.Calm turn.loaded) (hloaded : (turn.loaded.map w.keyOf).Nodup) :
    (Summary.ofPhases w plan turn s).regionChunks + (Summary.ofPhases w plan turn s).fallbackChunks =
      turn.loaded.length := by
  let ticks := (tick w true plan turn s).events.toList.filterMap Event.chunkTick?
  have hok := h.tick_regions_ok plan turn s
  have hregions : (Summary.ofPhases w plan turn s).regionChunks = ticks.countP fun t => t.1 ≠ .caller :=
    ofPhases_regionChunks hok
  have hfallback : (Summary.ofPhases w plan turn s).fallbackChunks = ticks.countP fun t => t.1 = .caller :=
    (tick_served hok).callerTicks.symm
  have hall : ticks.length = turn.loaded.length := by
    have hkeys := (h.tickedKeys_regions hloaded plan s).length_eq
    rwa [tickedKeys, List.length_map, List.length_map] at hkeys
  have hsplit := List.length_eq_countP_add_countP (fun t : Lane × C × UInt32 => decide (t.1 = .caller)) (l := ticks)
  simp only [decide_eq_true_eq, ← ne_eq] at hsplit
  omega

theorem World.Calm.sum_entities (h : w.Calm loaded) : (Summary.ofPhases w plan turn s).regionEntities +
    (Summary.ofPhases w plan turn s).unassignedEntities = (w.tracked s).length := by
  have heverybody := ofPhases_everybody w plan turn s
  have hserved := tick_served (h.tick_regions_ok plan turn s)
  have hskipped : (Summary.ofPhases w plan turn s).skippedEntities = 0 := by
    rw [ofPhases_eq]
    simp [h.faultOf_eq_none hserved.given]
  dsimp only at heverybody
  omega

/-- In a calm world a tick with regions and one without return, having ticked the same keys at the same speed and having
offered the same entities their ticks, each as often; and their counts add up to the same numbers. -/
theorem tick_sameWork (w : World σ C E) (plan : Plan) (turn : Turn C) (s : σ) (h : w.Calm turn.loaded)
    (hloaded : (turn.loaded.map w.keyOf).Nodup) :
    let parallel := tick w true plan turn s
    let sequential := tick w false plan turn s
    ∃ a b, parallel.summary = .ok a ∧ sequential.summary = .ok b ∧
      (chunkWork w parallel.events.toList).Perm (chunkWork w sequential.events.toList) ∧
      (offered parallel.events.toList).Perm (offered sequential.events.toList) ∧
      a.regionChunks + a.fallbackChunks = b.fallbackChunks ∧
      a.regionEntities + a.unassignedEntities = b.unassignedEntities := by
  intro parallel sequential
  refine ⟨_, _, h.tick_regions_ok plan turn s, h.summary_sequential plan turn s, ?_, ?_, ?_, ?_⟩
  · rw [h.chunkWork_sequential]
    exact h.chunkWork_regions hloaded
  · rw [h.offered_sequential]
    exact h.offered_regions
  · exact h.sum_chunks hloaded
  · exact h.sum_entities

end Calm

/-! ## A world without faults -/

/-- The chunks of the world below: two that its agent sees, and one that it does not. -/
def World.stock : List Key := [Cell.key ⟨0, 0⟩, Cell.key ⟨-1, 0⟩, Cell.key ⟨40, 0⟩]

/-- Never stumbles; look-ups find the chunks in stock. -/
def World.stocked : World Nat Key Nat where
  answer c s :=
    match c with
    | .lookup k => (.ok (if k ∈ World.stock then some k else none), s + 1)
    | c => (World.stumbling 0).answer c (s + 1)
  keyOf := id
  cellOf _ e := ⟨.ofNat e, 0⟩
  tracked _ := [0, 1, 9]

theorem stocked_calm : World.stocked.Calm World.stock := by
  refine ⟨fun c s => ?_, fun k s c hc => ?_, fun c speed s => rfl⟩
  · cases c with
    | lookup k => exact ⟨_, rfl⟩
    | _ => exact ⟨_, rfl⟩
  · have hfound : (if k ∈ World.stock then some k else none) = some c := Except.ok.inj hc
    by_cases hk : k ∈ World.stock
    · rw [if_pos hk] at hfound
      obtain rfl := Option.some.inj hfound
      exact ⟨rfl, by simpa [World.stocked] using hk⟩
    · rw [if_neg hk] at hfound
      cases hfound

theorem ofPhases_stocked :
    Summary.ofPhases World.stocked .inOrder (.alone World.stock) 0 = ⟨1, 0, 2, 1, 2, 0, 1⟩ := by
  have hbatch : batchOf World.stocked (.alone World.stock) 0 = ⟨#[.alone], #[9]⟩ := buildBatch_alone
  have hdispatch := @dispatch_singleton _ _ _ World.stocked .inOrder rfl 3 .alone (by decide +kernel) 0 #[]
  have hspeed : (Turn.alone World.stock).settings.randomTickSpeed = 3 := rfl
  rw [Summary.ofPhases, leftOver, dispatched, hbatch, hspeed, hdispatch]
  decide +kernel

/-- An agent sees two of three loaded chunks, and two of three entities stand in its region. -/
theorem tick_sameWork_stocked :
    World.stocked.Calm (Turn.alone World.stock).loaded ∧
      ((Turn.alone World.stock).loaded.map World.stocked.keyOf).Nodup ∧
      (tick World.stocked true .inOrder (.alone World.stock) 0).summary = .ok ⟨1, 0, 2, 1, 2, 0, 1⟩ ∧
      (tick World.stocked false .inOrder (.alone World.stock) 0).summary = .ok ⟨0, 0, 0, 3, 0, 0, 3⟩ ∧
      (chunkWork World.stocked (tick World.stocked true .inOrder (.alone World.stock) 0).events.toList).Perm
        (chunkWork World.stocked (tick World.stocked false .inOrder (.alone World.stock) 0).events.toList) ∧
      (offered (tick World.stocked true .inOrder (.alone World.stock) 0).events.toList).Perm
        (offered (tick World.stocked false .inOrder (.alone World.stock) 0).events.toList) := by
  have hloaded : ((Turn.alone World.stock).loaded.map World.stocked.keyOf).Nodup := by decide
  obtain ⟨_, _, -, -, hchunks, hentities, -⟩ :=
    tick_sameWork World.stocked .inOrder (.alone World.stock) 0 stocked_calm hloaded
  exact ⟨stocked_calm, hloaded, ofPhases_stocked ▸ stocked_calm.tick_regions_ok .inOrder (.alone World.stock) 0,
    stocked_calm.summary_sequential .inOrder (.alone World.stock) 0, hchunks, hentities⟩

end GridTick
