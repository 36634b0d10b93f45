import Mathlib.Data.List.Nodup
import GridTick.Proofs.Tick.Phases
import GridTick.Proofs.Tick.TaskHistory

/-!
# GridTick.Proofs.Tick.Histories — the history of a whole tick

A tick that returns a summary leaves one history for each region, one for the calling thread, and lines that come from
nobody.

* `perm_histories`: a history is made of those of its origins.
* `Batch.origins`: who may leave events in a tick with regions.
* `Served`, `tick_served`: a tick with regions that returns.
* `tick_sequential`: a tick without regions.
* `World.stumbling`: a world that faults at one call, for runs that can be evaluated.
-/

namespace GridTick

variable {σ C E : Type}

/-! ## Taking a history apart -/

theorem perm_histories (events : List (Event C E)) {origins : List Origin} (hnodup : origins.Nodup)
    (h : ∀ e ∈ events, ∀ o, e.origin? = some o → o ∈ origins) :
    (origins.flatMap (historyOf · events) ++ events.filter (·.origin? = none)).Perm events := by
  induction origins generalizing events with
  | nil =>
    have hnone : ∀ e ∈ events, e.origin? = none := by
      intro e he
      cases ho : e.origin? with
      | none => rfl
      | some o => exact absurd (h e he o ho) List.not_mem_nil
    rw [List.flatMap_nil, List.nil_append, List.filter_eq_self.mpr (by simpa using hnone)]
  | cons o rest ih =>
    obtain ⟨hnot, hrest⟩ := List.nodup_cons.mp hnodup
    -- what does not come from `o` comes from the rest, and has the same histories there
    let others := events.filter fun e => !decide (e.origin? = some o)
    have hothers : ∀ e ∈ others, ∀ o', e.origin? = some o' → o' ∈ rest := by
      intro e he o' ho'
      obtain ⟨he, hne⟩ := List.mem_filter.mp he
      rcases List.mem_cons.mp (h e he o' ho') with rfl | hmem
      · simp [ho'] at hne
      · exact hmem
    have hsame : rest.flatMap (historyOf · others) = rest.flatMap (historyOf · events) := by
      refine List.flatMap_congr fun o' ho' => ?_
      have hne : o' ≠ o := fun heq => hnot (heq ▸ ho')
      rw [historyOf, historyOf, List.filter_filter]
      refine List.filter_congr fun e _ => ?_
      by_cases heq : e.origin? = some o' <;> simp [heq, hne]
    have hnone : others.filter (·.origin? = none) = events.filter (·.origin? = none) := by
      rw [List.filter_filter]
      refine List.filter_congr fun e _ => ?_
      by_cases heq : e.origin? = none <;> simp [heq]
    have hperm := ih others hrest hothers
    rw [hsame, hnone] at hperm
    rw [List.flatMap_cons, List.append_assoc]
    exact (hperm.append_left _).trans (List.filter_append_perm _ events)

/-- What is read off events that come from somebody is read off the histories of the origins. -/
theorem perm_filterMap_histories {β : Type} {p : Event C E → Option β} (events : List (Event C E))
    {origins : List Origin} (hnodup : origins.Nodup)
    (h : ∀ e ∈ events, ∀ o, e.origin? = some o → o ∈ origins) (hp : ∀ e, e.origin? = none → p e = none) :
    (origins.flatMap fun o => (historyOf o events).filterMap p).Perm (events.filterMap p) := by
  have hnone : (events.filter (·.origin? = none)).filterMap p = [] := by
    refine List.filterMap_eq_nil_iff.mpr fun e he => hp e ?_
    simpa using (List.mem_filter.mp he).2
  have hperm := (perm_histories events hnodup h).filterMap p
  rwa [List.filterMap_append, hnone, List.append_nil, List.filterMap_flatMap] at hperm

theorem chunkTick?_of_nobody {e : Event C E} (h : e.origin? = none) : e.chunkTick? = none := by
  rcases e with _ | _ | _ | _
  · cases h
  · rfl
  · rfl
  · rfl

theorem offered?_of_nobody {e : Event C E} (h : e.origin? = none) : e.offered? = none := by
  rcases e with _ | _ | _ | _
  · rfl
  · cases h
  · rfl
  · rfl

/-! ## A tick with regions -/

/-- The calling thread, and the tasks of the regions that have a chunk. -/
def Batch.origins (batch : Batch E) : List Origin := .caller :: (jobs batch.regions.toList).map jobOrigin

/-- What a tick with regions leaves: every region is reported once, as its history says, and the calling thread sweeps
up what is left. -/
structure Served (w : World σ C E) (plan : Plan) (speed : UInt32) (loaded : List C) (batch : Batch E)
    (outcomes : List Outcome) (events : List (Event C E)) : Prop where
  places : (outcomes.map Outcome.place).Perm ((jobs batch.regions.toList).map Prod.snd)
  reports : ∀ o ∈ outcomes, ∃ job ∈ jobs batch.regions.toList, o.Serves plan speed events job
  caller : Program.Ends .caller (sweep speed (leftover w outcomes loaded) batch.unassigned.toList)
    (historyOf .caller events) (.ok ())
  origins : ∀ e ∈ events, ∀ o, e.origin? = some o → o ∈ batch.origins
  given : ∀ e ∈ events, w.Gives e

theorem World.gives_of_nobody (w : World σ C E) {e : Event C E} (h : e.origin? = none) : w.Gives e := by
  rcases e with _ | _ | _ | _
  · cases h
  · trivial
  · trivial
  · trivial

theorem jobOrigin_ne_caller (job : Region E × Nat) : jobOrigin job ≠ .caller := nofun

section Served

variable {w : World σ C E} {plan : Plan} {turn : Turn C} {s : σ}

/-- Lines from nobody change nothing. -/
theorem Served.append {speed : UInt32} {loaded : List C} {batch : Batch E} {outcomes : List Outcome}
    {events lines : List (Event C E)} (h : Served w plan speed loaded batch outcomes events)
    (hnobody : ∀ e ∈ lines, e.origin? = none) (hgiven : ∀ e ∈ lines, w.Gives e) :
    Served w plan speed loaded batch outcomes (events ++ lines) := by
  have hsame : ∀ o, historyOf o (events ++ lines) = historyOf o events := fun o => by
    rw [historyOf_append, historyOf_nobody hnobody, List.append_nil]
  refine ⟨h.places, fun o ho => ?_, ?_, fun e he o ho => ?_, fun e he => ?_⟩
  · obtain ⟨job, hjob, hserves⟩ := h.reports o ho
    exact ⟨job, hjob, hserves.place, hserves.region, hserves.entities, by rw [hsame, hserves.chunks],
      by rw [hsame]; exact hserves.ends⟩
  · rw [hsame]
    exact h.caller
  · rcases List.mem_append.mp he with he | he
    · exact h.origins e he o ho
    · rw [hnobody e he] at ho
      cases ho
  · exact (List.mem_append.mp he).elim (h.given e) (hgiven e)

/-- The reports of the regions, some lines from nobody, and the sweep of the calling thread. -/
theorem served_of_sweep {speed : UInt32} {loaded : List C} {batch : Batch E} {outcomes : List Outcome} {s' : σ}
    {D : Array (Event C E)} {lines H : List (Event C E)}
    (hserves : Pool.Serves plan speed w (jobs batch.regions.toList) ⟨[], outcomes, s', D⟩)
    (hnobody : ∀ e ∈ lines, e.origin? = none) (hlines : ∀ e ∈ lines, w.Gives e)
    (hends : Program.Ends .caller (sweep speed (leftover w outcomes loaded) batch.unassigned.toList) H (.ok ()))
    (hgiven : ∀ e ∈ H, w.Gives e) : Served w plan speed loaded batch outcomes (D.toList ++ lines ++ H) := by
  obtain ⟨hplaces, -, hreports, horigins, hgiven'⟩ := hserves
  have hcaller : historyOf .caller D.toList = [] := by
    refine List.filter_eq_nil_iff.mpr fun e he => ?_
    obtain ⟨job, -, heq⟩ := horigins e he
    simp [heq, jobOrigin]
  have htask : ∀ job : Region E × Nat, historyOf (jobOrigin job) (D.toList ++ lines ++ H) =
      historyOf (jobOrigin job) D.toList := fun job => by
    rw [historyOf_append, historyOf_append, historyOf_nobody hnobody,
      historyOf_other hends.origin (jobOrigin_ne_caller job), List.append_nil, List.append_nil]
  refine ⟨by simpa using hplaces, fun o ho => ?_, ?_, fun e he o ho => ?_, fun e he => ?_⟩
  · obtain ⟨job, hjob, hserves⟩ := hreports o ho
    exact ⟨job, hjob, hserves.place, hserves.region, hserves.entities, by rw [htask, hserves.chunks],
      by rw [htask]; exact hserves.ends⟩
  · rw [historyOf_append, historyOf_append, hcaller, historyOf_nobody hnobody, historyOf_self hends.origin]
    exact hends
  · rcases List.mem_append.mp he with he | he
    · rcases List.mem_append.mp he with he | he
      · obtain ⟨job, hjob, heq⟩ := horigins e he
        rw [heq] at ho
        cases ho
        exact List.mem_cons_of_mem _ (List.mem_map_of_mem hjob)
      · rw [hnobody e he] at ho
        cases ho
    · rw [hends.origin e he] at ho
      cases ho
      exact List.mem_cons_self ..
  · rcases List.mem_append.mp he with he | he
    · exact (List.mem_append.mp he).elim (hgiven' e) (hlines e)
    · exact hgiven e he

theorem tick_served {summary : Summary} (h : (tick w true plan turn s).summary = .ok summary) :
    let batch := buildBatch (w.cellOf s) (w.tracked s) turn.agents turn.settings.viewDistance
    let outcomes := (dispatch w plan turn.settings.randomTickSpeed batch.regions.toList s #[]).1
    Served w plan turn.settings.randomTickSpeed turn.loaded batch outcomes (tick w true plan turn s).events.toList := by
  intro batch outcomes
  rw [tick_regions.1] at h
  rw [tick_regions.2]
  obtain ⟨hends, hgiven⟩ := swept_ends w plan turn s
  rw [endLines]
  cases hswept : (swept w plan turn s).1 with
  | error fault =>
    rw [hswept] at h
    cases h
  | ok a =>
    rw [hswept] at hends
    refine Served.append ?_ (fun e => origin?_of_joinLines) fun e he => w.gives_of_nobody (origin?_of_joinLines he)
    exact served_of_sweep (dispatched_serves w plan turn s) (fun e => origin?_of_failureLines)
      (fun e he => w.gives_of_nobody (origin?_of_failureLines he)) hends hgiven

/-- Every region that has a chunk is reported. -/
theorem Served.report {speed : UInt32} {loaded : List C} {batch : Batch E} {outcomes : List Outcome}
    {events : List (Event C E)} (h : Served w plan speed loaded batch outcomes events) {job : Region E × Nat}
    (hjob : job ∈ jobs batch.regions.toList) : ∃ o ∈ outcomes, o.Serves plan speed events job :=
  exists_report h.places h.reports hjob

theorem Batch.mem_origins {batch : Batch E} {o : Origin} (ho : o ∈ batch.origins) :
    o = .caller ∨ ∃ i r, batch.regions[i]? = some r ∧ (r, i) ∈ jobs batch.regions.toList ∧ o = .task i r.id := by
  rcases List.mem_cons.mp ho with rfl | ho
  · exact .inl rfl
  · obtain ⟨⟨r, i⟩, hjob, rfl⟩ := List.mem_map.mp ho
    exact .inr ⟨i, r, (mem_jobs_regions.mp hjob).1, hjob, rfl⟩

/-- Place of the region that a task works on. -/
def Origin.place? : Origin → Option Nat
  | .task place _ => some place
  | .caller => none

theorem Batch.origins_place_nodup (batch : Batch E) : (batch.origins.map Origin.place?).Nodup := by
  have hmap : batch.origins.map Origin.place? = none :: ((jobs batch.regions.toList).map Prod.snd).map some := by
    simp [Batch.origins, Origin.place?, jobOrigin, Function.comp_def]
  rw [hmap, List.nodup_cons]
  exact ⟨by simp, (jobs_nodup _).map fun _ _ => Option.some.inj⟩

theorem Batch.origins_nodup (batch : Batch E) : batch.origins.Nodup := batch.origins_place_nodup.of_map

/-- Origins are told apart by their places. -/
theorem Batch.origin_eq {batch : Batch E} {o o' : Origin} (ho : o ∈ batch.origins) (ho' : o' ∈ batch.origins)
    (h : o.place? = o'.place?) : o = o' :=
  List.inj_on_of_nodup_map batch.origins_place_nodup ho ho' h

/-! ## A tick without regions -/

/-- The state in which a tick without regions reads the tracked entities. -/
def afterChunks (w : World σ C E) (turn : Turn C) (s : σ) : σ :=
  ((Program.tickAll turn.settings.randomTickSpeed turn.loaded).run w .caller ⟨s, ∅, #[]⟩ :
    Except Fault Unit × Trail σ C E).2.state

/-- Chunk ticks that leave the tracked entities as they are do so together, also if one of them faults. -/
theorem tracked_run_tickAll {speed : UInt32} {chunks : List C}
    (htracks : ∀ c ∈ chunks, ∀ s, w.tracked (w.answer (.tickChunk c speed) s).2 = w.tracked s) (o : Origin)
    (trail : Trail σ C E) :
    w.tracked ((Program.tickAll speed chunks : Program C E Unit).run w o trail).2.state = w.tracked trail.state := by
  induction chunks generalizing trail with
  | nil => rfl
  | cons c rest ih =>
    obtain ⟨s, keys, events⟩ := trail
    have hc := htracks c (List.mem_cons_self ..) s
    have hrest := ih fun c' hc' => htracks c' (List.mem_cons_of_mem _ hc')
    have hrun : (Program.tickAll speed (c :: rest) : Program C E Unit) =
        .ask (.tickChunk c speed) fun _ => Program.tickAll speed rest := rfl
    rw [hrun, Program.run]
    rcases hans : w.answer (.tickChunk c speed) s with ⟨answer, s'⟩
    rw [hans] at hc
    cases answer with
    | ok a => exact (hrest _).trans hc
    | error fault => exact hc

theorem tickSequential_ends {summary : Summary} (h : (tickSequential w turn s).1 = .ok summary) :
    ∃ H₁ H₂, (tickSequential w turn s).2.2.toList = H₁ ++ H₂ ∧
      Program.Ends .caller (Program.tickAll turn.settings.randomTickSpeed turn.loaded) H₁ (.ok ()) ∧
      Program.Ends .caller (Program.offerAll (w.tracked (afterChunks w turn s))) H₂ (.ok ()) := by
  unfold tickSequential afterChunks at *
  obtain ⟨H₁, hext₁, hends₁⟩ := Program.ends_of_run w .caller
    (Program.tickAll turn.settings.randomTickSpeed turn.loaded : Program C E Unit) ⟨s, ∅, #[]⟩
  generalize (Program.tickAll turn.settings.randomTickSpeed turn.loaded : Program C E Unit).run w .caller
    ⟨s, ∅, #[]⟩ = ran at h hext₁ hends₁ ⊢
  obtain ⟨fault | _, s', recorded, events⟩ := ran
  · cases h
  · dsimp only at h hext₁ hends₁ ⊢
    obtain ⟨H₂, hext₂, hends₂⟩ := Program.ends_of_run w .caller (Program.offerAll (w.tracked s')) ⟨s', recorded, events⟩
    generalize (Program.offerAll (w.tracked s')).run w .caller ⟨s', recorded, events⟩ = ran at h hext₂ hends₂ ⊢
    obtain ⟨fault | _, trail⟩ := ran
    · cases h
    · have hevents : events.toList = H₁ := by simpa using hext₁.events
      exact ⟨H₁, H₂, by rw [hext₂.events, hevents], hends₁, hends₂⟩

/-- The calling thread ticks the chunks, then offers the entities of that moment their ticks. -/
theorem tick_sequential {summary : Summary} (h : (tick w false plan turn s).summary = .ok summary) :
    ∃ H₁ H₂ lines, (tick w false plan turn s).events.toList = H₁ ++ H₂ ++ lines ∧
      Program.Ends .caller (Program.tickAll turn.settings.randomTickSpeed turn.loaded) H₁ (.ok ()) ∧
      Program.Ends .caller (Program.offerAll (w.tracked (afterChunks w turn s))) H₂ (.ok ()) ∧
      ∀ e ∈ lines, e.origin? = none := by
  rcases hr : tickSequential w turn s with ⟨fault | summary', s', events⟩
  · simp [tick, hr] at h
  · have hok : (tickSequential w turn s).1 = .ok summary' := by rw [hr]
    obtain ⟨H₁, H₂, hsplit, hends₁, hends₂⟩ := tickSequential_ends hok
    refine ⟨H₁, H₂, joinLines turn.deferred, ?_, hends₁, hends₂, fun e => origin?_of_joinLines⟩
    rw [hr] at hsplit
    rw [← hsplit, ← joinDeferred_eq]
    simp [tick, hr]

end Served

/-! ## A world that stumbles once -/

/-- Counts its calls and faults at call `n`.  Every key has a chunk; entity `e` stands `e` cells from the middle. -/
def World.stumbling (n : Nat) : World Nat Key Nat where
  answer c s :=
    if s = n then (.error (.text "stumbled"), s + 1)
    else
      match c with
      | .lookup k => (.ok (some k), s + 1)
      | .tickChunk _ _ => (.ok (), s + 1)
      | .isRemoved _ => (.ok false, s + 1)
      | .isFrozen _ => (.ok false, s + 1)
      | .vehicle _ => (.ok none, s + 1)
      | .hasPassenger _ _ => (.ok false, s + 1)
      | .stopRiding _ => (.ok (), s + 1)
      | .checkDespawn _ => (.ok (), s + 1)
      | .tickEntity _ => (.ok (), s + 1)
  keyOf := id
  cellOf _ e := ⟨.ofNat e, 0⟩
  tracked _ := [0, 1, 9]

/-- One agent in the middle, which sees nine cells. -/
def Turn.alone (loaded : List Key) : Turn Key := ⟨[⟨0, 0⟩], loaded, ⟨1, 3⟩, .unit⟩

/-- The region of that agent: two of the three entities stand in it. -/
def Region.alone : Region Nat := ⟨.ofPlace 0, Window.toSet ⟨⟨0, 0⟩, 1⟩, #[0, 1]⟩

theorem regionsOf_singleton (set : KeySet) : (regionsOf [set] : List (Region E)) = [.bare (.ofPlace 0) set] := by
  simp [regionsOf, components, grow, absorb]

theorem regionsOf_pair {a b : KeySet} (h : a.meets b = false) :
    (regionsOf [a, b] : List (Region E)) = [.bare (.ofPlace 0) a, .bare (.ofPlace 1) b] := by
  simp [regionsOf, components, grow, absorb, h]

theorem dispatch_singleton (w : World σ C E) {plan : Plan} (hplan : plan.turns = []) (speed : UInt32) {r : Region E}
    (hr : r.isEmpty = false) (s : σ) (events : Array (Event C E)) :
    let t : Task C E := .ofRegion plan speed r 0
    dispatch w plan speed [r] s events = ([(t.finish w s events).1], (t.finish w s events).2) := by
  simp [dispatch, jobs, hr, Pool.run, hplan, Pool.drain]

theorem Task.finish_region (w : World σ C E) (t : Task C E) (s : σ) (events : Array (Event C E)) :
    (t.finish w s events).1.region = t.region := by
  unfold Task.finish
  cases t.stage with
  | ended fault => rfl
  | running p =>
    dsimp only
    rcases p.run w t.origin ⟨s, t.recorded, events⟩ with ⟨fault | _, trail⟩
    · rfl
    · rfl

theorem dispatch_pair (w : World σ C E) {plan : Plan} (hplan : plan.turns = []) (speed : UInt32) {r r' : Region E}
    (hr : r.isEmpty = false) (hr' : r'.isEmpty = false) (hle : r.id.number ≤ r'.id.number) (s : σ) :
    let a := (Task.ofRegion plan speed r 0 : Task C E).finish w s #[]
    let b := (Task.ofRegion plan speed r' 1 : Task C E).finish w a.2.1 a.2.2
    dispatch w plan speed [r, r'] s #[] = ([a.1, b.1], b.2) := by
  intro a b
  have hsorted : [a.1, b.1].Pairwise fun o o' => decide (o.region.number ≤ o'.region.number) = true := by
    simpa [a, b, Task.finish_region, Task.ofRegion] using hle
  have hrun : dispatch w plan speed [r, r'] s #[] =
      ([a.1, b.1].mergeSort fun o o' => o.region.number ≤ o'.region.number, b.2) := by
    simp [dispatch, jobs, hr, hr', Pool.run, hplan, Pool.drain, a, b]
  rw [hrun, List.mergeSort_of_pairwise hsorted]

theorem buildBatch_alone :
    buildBatch (fun e : Nat => ⟨.ofNat e, 0⟩) [0, 1, 9] [⟨0, 0⟩] 1 = ⟨#[.alone], #[9]⟩ := by
  rw [buildBatch, List.map_cons, List.map_nil, regionsOf_singleton]
  rfl

theorem dispatch_alone (n : Nat) :
    let t : Task Key Nat := .ofRegion .inOrder 3 .alone 0
    dispatch (World.stumbling n) .inOrder 3 [.alone] 0 #[] =
      ([(t.finish (World.stumbling n) 0 #[]).1], (t.finish (World.stumbling n) 0 #[]).2) :=
  dispatch_singleton _ rfl _ (by decide +kernel) _ _

end GridTick
