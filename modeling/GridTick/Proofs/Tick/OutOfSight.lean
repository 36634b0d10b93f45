import GridTick.Proofs.Region.Distribution
import GridTick.Proofs.Tick.ChunkCoverage

/-!
# GridTick.Proofs.Tick.OutOfSight — regions that touch nothing change nothing

If no agent sees a loaded chunk or a tracked entity, or if there is no agent, the tasks of the regions look up their
keys in vain and have nothing else to do.  Everything is left to the calling thread, which then does what it does
without regions, call by call, also where a fault stops it.

* `OutOfSight`: what is asked of the world and of the agents.
* `Program.Misses`, `Pool.Idle`: programs that look up in vain, and pools of such tasks; `Pool.Idle.turn` keeps it.
* `OutOfSight.dispatched_idle`: the dispatch leaves the state as it was.
* `OutOfSight.swept_eq`, `tickSequential_eq_sweep`: both ticks are one sweep over everything.
* `AfterMisses`, `tick_outOfSight`: the two ticks.
-/

namespace GridTick

variable {σ C E α β : Type}

/-! ## Agents that see nothing -/

/-- An agent of the turn sees the cell of a key. -/
def Turn.Sees (turn : Turn C) (k : Key) : Prop :=
  ∃ a ∈ turn.agents, k ∈ (Window.mk a turn.settings.viewDistance).keys

/-- From a state, look-ups of what the agents see find nothing, do not fault and change nothing; no tracked entity stands
where they see; and ticks of loaded chunks leave the tracked entities as they are. -/
structure OutOfSight (w : World σ C E) (turn : Turn C) (s : σ) : Prop where
  misses : ∀ k, turn.Sees k → w.answer (.lookup k) s = (.ok none, s)
  nobody : ∀ e ∈ w.tracked s, ¬ turn.Sees (w.cellOf s e).key
  tracks : ∀ c ∈ turn.loaded, ∀ s',
    w.tracked (w.answer (.tickChunk c turn.settings.randomTickSpeed) s').2 = w.tracked s'

/-- A task has looked up a key in vain. -/
def Event.Missed (seen : Key → Prop) (e : Event C E) : Prop :=
  ∃ place id k, seen k ∧ e = .called (.task place id) (.lookup k) (.ok none)

/-! ## Programs and pools that look up in vain -/

/-- As long as look-ups find nothing, a program makes no other calls, and notes nothing. -/
inductive Program.Misses (seen : Key → Prop) : Program C E α → Prop
  | done (a : α) : Misses seen (.done a)
  | lookup {k : Key} {next : Option C → Program C E α} (hk : seen k) (hnext : Misses seen (next none)) :
    Misses seen (.ask (.lookup k) next)

/-- What a task has still to do is to look up keys in vain; if it has ended, it has not faulted. -/
def Stage.Misses (seen : Key → Prop) : Stage C E → Prop
  | .running p => p.Misses seen
  | .ended fault => fault = none

/-- A task without entities that only looks up in vain. -/
structure Task.Idle (seen : Key → Prop) (t : Task C E) : Prop where
  recorded : t.recorded = ∅
  entities : t.entities = 0
  stage : t.stage.Misses seen

/-- The report of a task that has done nothing. -/
structure Outcome.Idle (o : Outcome) : Prop where
  chunks : o.chunks = ∅
  entities : o.entities = 0
  fault : o.fault = none

/-- All tasks are idle, those that have reported were, and they have left the state as it was. -/
structure Pool.Idle (seen : Key → Prop) (s : σ) (pool : Pool σ C E) : Prop where
  tasks : ∀ t ∈ pool.tasks, t.Idle seen
  reports : ∀ o ∈ pool.reports, o.Idle
  state : pool.state = s
  events : ∀ e ∈ pool.events.toList, e.Missed seen

section Idle

variable {seen : Key → Prop} {w : World σ C E} {s : σ}

theorem Program.resolve_misses {keys : List Key} (hkeys : ∀ k ∈ keys, seen k) {f : List (Key × C) → Program C E β}
    (hf : (f []).Misses seen) : ((resolve keys []).bind f).Misses seen := by
  induction keys with
  | nil => exact hf
  | cons k rest ih =>
    exact .lookup (hkeys k (List.mem_cons_self ..)) (ih fun k' hk' => hkeys k' (List.mem_cons_of_mem _ hk'))

theorem Program.regionTask_misses {keys : List Key} (hkeys : ∀ k ∈ keys, seen k) (speed : UInt32) :
    (regionTask speed keys [] : Program C E Unit).Misses seen :=
  resolve_misses hkeys (.done ())

/-- A step of an idle task leaves it idle; it leaves the state as it was, and at most one look-up more. -/
theorem Task.Idle.step (hmisses : ∀ k, seen k → w.answer (.lookup k) s = (.ok none, s)) {t : Task C E}
    (h : t.Idle seen) (events : Array (Event C E)) :
    (t.step w s events).1.Idle seen ∧ (t.step w s events).2.1 = s ∧
      ∀ e ∈ (t.step w s events).2.2.toList, e ∈ events.toList ∨ e.Missed seen := by
  obtain ⟨place, region, entities, recorded, stage⟩ := t
  obtain ⟨hrecorded, hentities, hstage⟩ := h
  cases stage with
  | ended fault => exact ⟨⟨hrecorded, hentities, hstage⟩, rfl, fun e he => .inl he⟩
  | running p =>
    cases hstage with
    | done a => exact ⟨⟨hrecorded, hentities, rfl⟩, rfl, fun e he => .inl he⟩
    | @lookup k next hk hnext =>
      simp only [Task.step, Program.step, hmisses k hk]
      refine ⟨⟨hrecorded, hentities, hnext⟩, trivial, ?_⟩
      intro e he
      rw [Array.toList_push, List.mem_append, List.mem_singleton] at he
      exact he.imp_right fun he => ⟨place, region, k, hk, he⟩

/-- A turn keeps a pool idle. -/
theorem Pool.Idle.turn (hmisses : ∀ k, seen k → w.answer (.lookup k) s = (.ok none, s)) {pool : Pool σ C E}
    (h : pool.Idle seen s) (i : Nat) : (pool.turn w i).Idle seen s := by
  obtain ⟨tasks, reports, s', events⟩ := pool
  obtain rfl : s' = s := h.state
  rcases turn_cases w ⟨tasks, reports, s', events⟩ i with
    heq | ⟨l₁, t, l₂, fault, rfl, ht, heq⟩ | ⟨l₁, t, l₂, p, rfl, ht, heq⟩
  · rw [heq]
    exact h
  · rw [heq]
    refine ⟨fun u hu => h.tasks u (mem_middle.mpr (.inr hu)), ?_, rfl, h.events⟩
    intro o ho
    rcases List.mem_append.mp ho with ho | ho
    · exact h.reports o ho
    · obtain rfl := List.mem_singleton.mp ho
      obtain ⟨hrecorded, hentities, hstage⟩ := h.tasks t (by simp)
      rw [ht] at hstage
      exact ⟨hrecorded, hentities, hstage⟩
  · rw [heq]
    obtain ⟨hidle, hstate, hevents⟩ := (h.tasks t (by simp)).step hmisses events
    refine ⟨?_, h.reports, hstate, fun e he => (hevents e he).elim (h.events e) id⟩
    intro u hu
    rcases mem_middle.mp hu with rfl | hu
    · exact hidle
    · exact h.tasks u (mem_middle.mpr (.inr hu))

theorem Summary.foldl_add_idle {outcomes : List Outcome} (h : ∀ o ∈ outcomes, o.Idle) (t : Summary) :
    outcomes.foldl Summary.add t = t := by
  induction outcomes with
  | nil => rfl
  | cons o rest ih =>
    obtain ⟨hchunks, hentities, hfault⟩ := h o (List.mem_cons_self ..)
    have hsame : t.add o = t := by simp [Summary.add, hchunks, hentities, hfault]
    rw [List.foldl_cons, hsame]
    exact ih fun o' ho' => h o' (List.mem_cons_of_mem _ ho')

theorem failureLines_idle {outcomes : List Outcome} (h : ∀ o ∈ outcomes, o.Idle) :
    (failureLines outcomes : List (Event C E)) = [] := by
  have hnone : outcomes.filterMap Outcome.notice? = [] := by
    rw [List.filterMap_eq_nil_iff]
    intro o ho
    simp [Outcome.notice?, Outcome.error?, (h o ho).fault]
  rw [failureLines, hnone, List.map_nil]

end Idle

/-! ## A tick with regions that see nothing -/

namespace OutOfSight

variable {w : World σ C E} {turn : Turn C} {s : σ}

theorem goesTo_eq_none (h : OutOfSight w turn s) {e : E} (he : e ∈ w.tracked s) :
    goesTo (w.cellOf s) turn.agents turn.settings.viewDistance e = none := by
  obtain ⟨groups, -, hregions⟩ := regionsOf_map (E := E) (sight turn.agents turn.settings.viewDistance)
    (List.finRange turn.agents.length)
  have hfree : ∀ r ∈ (regionsOf ((List.finRange turn.agents.length).map
      (sight turn.agents turn.settings.viewDistance)) : List (Region E)), (w.cellOf s e).key ∉ r.chunks := by
    intro r hr hk
    rw [hregions] at hr
    obtain ⟨⟨g, p⟩, -, rfl⟩ := List.mem_map.mp hr
    obtain ⟨j, -, hj⟩ := Group.mem_keys.mp hk
    exact h.nobody e he ⟨turn.agents.get j, turn.agents.get_mem j, Window.mem_toSet.mp hj⟩
  unfold goesTo
  rw [Batch.destination_eq_none_iff, RegionIndex.get?_eq_none_iff.mpr hfree]
  rfl

theorem unassigned (h : OutOfSight w turn s) : (batchOf w turn s).unassigned.toList = w.tracked s := by
  rw [batchOf, buildBatch_unassigned, List.filter_eq_self]
  intro e he
  exact decide_eq_true (h.goesTo_eq_none he)

theorem region_entities (h : OutOfSight w turn s) {i : Nat} {r : Region E}
    (hr : (batchOf w turn s).regions[i]? = some r) : r.entities.toList = [] := by
  rw [buildBatch_entities hr, List.filter_eq_nil_iff]
  intro e he
  simp [h.goesTo_eq_none he]

theorem start_idle (h : OutOfSight w turn s) (plan : Plan) :
    (Pool.start plan turn.settings.randomTickSpeed (batchOf w turn s).regions.toList s : Pool σ C E).Idle
      turn.Sees s := by
  refine ⟨?_, by simp [Pool.start], rfl, by simp [Pool.start]⟩
  intro t ht
  obtain ⟨⟨r, i⟩, hjob, rfl⟩ := List.mem_map.mp ht
  have hr := (mem_jobs_regions.mp hjob).1
  have hentities := h.region_entities hr
  have hkeys : ∀ k ∈ plan.enumerate r.id r.chunks, turn.Sees k := fun k hk =>
    buildBatch_seen hr (KeySet.mem_toList.mp ((plan.enumerate_perm r.id r.chunks).subset hk))
  refine ⟨rfl, by simp [Task.ofRegion, ← Array.length_toList, hentities], ?_⟩
  simp only [Task.ofRegion, Stage.Misses, hentities]
  exact Program.regionTask_misses hkeys _

/-- The regions do nothing but look up what their agents see, in vain. -/
theorem dispatched_idle (h : OutOfSight w turn s) (plan : Plan) :
    Pool.Idle turn.Sees s ⟨[], (dispatched w plan turn s).1, (dispatched w plan turn s).2.1,
      (dispatched w plan turn s).2.2⟩ := by
  obtain ⟨reports, hsort, hend⟩ := dispatch_induction w plan turn.settings.randomTickSpeed
    (batchOf w turn s).regions.toList s (h.start_idle plan) fun pool hpool i => hpool.turn h.misses i
  exact ⟨by simp, fun o ho => hend.reports o (hsort.subset ho), hend.state, hend.events⟩

theorem leftOver_eq_loaded (h : OutOfSight w turn s) (plan : Plan) : leftOver w plan turn s = turn.loaded := by
  rw [leftOver, leftover_eq_filter, List.filter_eq_self]
  intro c _
  apply decide_eq_true
  intro hc
  obtain ⟨o, ho, hk⟩ := mem_ticked.mp hc
  rw [((h.dispatched_idle plan).reports o ho).chunks] at hk
  exact Std.ExtTreeSet.not_mem_empty hk

/-- The calling thread sweeps up everything, from the state before the dispatch. -/
theorem swept_eq (h : OutOfSight w turn s) (plan : Plan) : swept w plan turn s =
    (sweep turn.settings.randomTickSpeed turn.loaded (w.tracked s)).run w .caller ⟨s, ∅, #[]⟩ := by
  have hstate : (dispatched w plan turn s).2.1 = s := (h.dispatched_idle plan).state
  rw [swept, h.leftOver_eq_loaded, h.unassigned, hstate]

theorem beforeJoin_eq (h : OutOfSight w turn s) (plan : Plan) : beforeJoin w plan turn s =
    (dispatched w plan turn s).2.2.toList ++ (swept w plan turn s).2.events.toList := by
  rw [beforeJoin, failureLines_idle (h.dispatched_idle plan).reports, List.append_nil]

/-- The counts of the tick: all that is loaded or tracked is left to the calling thread. -/
theorem ofPhases_eq (h : OutOfSight w turn s) (plan : Plan) : Summary.ofPhases w plan turn s =
    { Summary.zero with
      regions := (batchOf w turn s).regions.size
      fallbackChunks := turn.loaded.length
      unassignedEntities := (w.tracked s).length } := by
  have hregions : (batchOf w turn s).regions.toList.countP (!·.isEmpty) = (batchOf w turn s).regions.size := by
    rw [← Array.length_toList, List.countP_eq_length]
    intro r hr
    obtain ⟨i, hi⟩ := List.getElem?_of_mem hr
    rw [Array.getElem?_toList] at hi
    simp [buildBatch_nonempty hi]
  have houtside : (batchOf w turn s).unassigned.size = (w.tracked s).length := by
    rw [← h.unassigned, Array.length_toList]
  rw [Summary.ofPhases, Summary.foldl_add_idle (h.dispatched_idle plan).reports, h.leftOver_eq_loaded, hregions,
    houtside]

end OutOfSight

/-! ## A tick without regions -/

section Sequential

variable {w : World σ C E} {turn : Turn C}

/-- If chunk ticks leave the tracked entities as they are, a tick without regions is a sweep over everything. -/
theorem tickSequential_eq_sweep (htracks : ∀ c ∈ turn.loaded, ∀ s,
    w.tracked (w.answer (.tickChunk c turn.settings.randomTickSpeed) s).2 = w.tracked s) (s : σ) :
    let ran := (sweep turn.settings.randomTickSpeed turn.loaded (w.tracked s)).run w .caller ⟨s, ∅, #[]⟩
    tickSequential w turn s = (ran.1.map fun _ => { Summary.zero with
      fallbackChunks := turn.loaded.length, unassignedEntities := (w.tracked s).length }, ran.2.state, ran.2.events) := by
  intro ran
  have htracked := tracked_run_tickAll htracks .caller ⟨s, ∅, #[]⟩
  have hran : ran = _ := Program.run_bind w .caller (Program.tickAll turn.settings.randomTickSpeed turn.loaded)
    (fun _ => Program.offerAll (w.tracked s)) ⟨s, ∅, #[]⟩
  rw [tickSequential, hran]
  rcases hchunks : (Program.tickAll turn.settings.randomTickSpeed turn.loaded : Program C E Unit).run w .caller
    ⟨s, ∅, #[]⟩ with ⟨fault | _, s', recorded, events⟩
  · rfl
  · have htracked' : w.tracked s' = w.tracked s := by rwa [hchunks] at htracked
    simp only [htracked']
    rcases (Program.offerAll (w.tracked s)).run w .caller ⟨s', recorded, events⟩ with ⟨fault | _, trail⟩
    · rfl
    · rfl

end Sequential

/-! ## The two ticks -/

/-- The first tick is the second with look-ups in vain before it, so both make the same calls to chunks and entities, log
the same, join the deferred work or are left by the same fault, and lead to the same state.  They count the same but for
the number of regions. -/
structure AfterMisses (seen : Key → Prop) (regions : Nat) (result plain : TickResult σ C E) : Prop where
  events : ∃ misses, result.events.toList = misses ++ plain.events.toList ∧ ∀ e ∈ misses, e.Missed seen
  chunkTicks : chunkTicks result.events = chunkTicks plain.events
  entityCalls : entityCalls result.events = entityCalls plain.events
  notices : notices result.events = notices plain.events
  summary : result.summary = plain.summary.map fun t => { t with regions }
  state : result.state = plain.state

/-- Nothing is read from look-ups in vain. -/
theorem filterMap_misses {γ : Type} {seen : Key → Prop} {f : Event C E → Option γ} {misses rest : List (Event C E)}
    (h : ∀ e ∈ misses, e.Missed seen)
    (hf : ∀ place id k, f (.called (.task place id) (.lookup k) (.ok none)) = none) :
    (misses ++ rest).filterMap f = rest.filterMap f := by
  have hnone : misses.filterMap f = [] := by
    rw [List.filterMap_eq_nil_iff]
    intro e he
    obtain ⟨place, id, k, -, rfl⟩ := h e he
    exact hf place id k
  rw [List.filterMap_append, hnone, List.nil_append]

section Ticks

variable {w : World σ C E} {turn : Turn C} {s : σ}

theorem OutOfSight.tick_sequential (h : OutOfSight w turn s) (plan : Plan) :
    (tick w false plan turn s).summary = ((swept w plan turn s).1.map fun _ => { Summary.zero with
      fallbackChunks := turn.loaded.length, unassignedEntities := (w.tracked s).length }) ∧
    (tick w false plan turn s).state = (swept w plan turn s).2.state ∧
    (tick w false plan turn s).events.toList = (swept w plan turn s).2.events.toList ++ endLines w plan turn s := by
  have hsweep := tickSequential_eq_sweep h.tracks s
  dsimp only at hsweep
  rw [← h.swept_eq plan] at hsweep
  cases hswept : (swept w plan turn s).1 with
  | ok a =>
    simp only [hswept, Except.map] at hsweep
    simp [tick, hsweep, endLines, hswept, joinDeferred_eq, Except.map]
  | error fault =>
    simp only [hswept, Except.map] at hsweep
    simp [tick, hsweep, endLines, hswept, Except.map]

/-- If the agents see nothing, or if there are none, a tick with regions is that without regions. -/
theorem tick_outOfSight (w : World σ C E) (plan : Plan) (turn : Turn C) (s : σ) (h : OutOfSight w turn s) :
    AfterMisses turn.Sees (batchOf w turn s).regions.size (tick w true plan turn s) (tick w false plan turn s) := by
  obtain ⟨hsummary, hstate, hevents⟩ := h.tick_sequential plan
  have hmissed := (h.dispatched_idle plan).events
  have hsplit : (tick w true plan turn s).events.toList =
      (dispatched w plan turn s).2.2.toList ++ (tick w false plan turn s).events.toList := by
    rw [tick_regions.2, h.beforeJoin_eq, hevents, List.append_assoc]
  refine ⟨⟨_, hsplit, hmissed⟩, ?_, ?_, ?_, ?_, ?_⟩
  · rw [chunkTicks, hsplit, filterMap_misses hmissed fun _ _ _ => rfl, chunkTicks]
  · rw [entityCalls, hsplit, filterMap_misses hmissed fun _ _ _ => rfl, entityCalls]
  · rw [notices, hsplit, filterMap_misses hmissed fun _ _ _ => rfl, notices]
  · rw [tick_regions.1, hsummary, h.ofPhases_eq]
    cases (swept w plan turn s).1 with
    | ok a => rfl
    | error fault => rfl
  · rw [state_tick, hstate]

end Ticks

/-! ## An agent far from everything -/

/-- Look-ups find nothing; of the other calls, number `n` stumbles. -/
def World.vacant (n : Nat) : World Nat Key Nat :=
  { World.stumbling n with
    answer := fun c s =>
      match c with
      | .lookup _ => (.ok none, s)
      | c => (World.stumbling n).answer c s }

/-- The only agent is far from the one loaded chunk, which is listed twice, and from the entities. -/
def Turn.far : Turn Key := ⟨[⟨20, 0⟩], [Cell.key ⟨0, 0⟩, Cell.key ⟨0, 0⟩], ⟨1, 3⟩, .thread (some (.text "late"))⟩

theorem vacant_outOfSight (n : Nat) : OutOfSight (.vacant n) .far 0 := by
  refine ⟨fun _ _ => rfl, ?_, fun _ _ _ => rfl⟩
  have hfar : ∀ e ∈ [0, 1, 9], ∀ a ∈ [(⟨20, 0⟩ : Cell)], Cell.key ⟨.ofNat e, 0⟩ ∉ (Window.mk a 1).keys := by
    decide +kernel
  rintro e he ⟨a, ha, hk⟩
  exact hfar e he a ha hk

theorem batchOf_far (n : Nat) : (batchOf (.vacant n) .far 0).regions.size = 1 := by
  have hregions : (regionsOf (Turn.far.agents.map fun a => (Window.mk a 1).toSet) : List (Region Nat)).length = 1 := by
    rw [Turn.far, List.map_cons, List.map_nil, regionsOf_singleton, List.length_singleton]
  exact (Batch.distributed_of_index _ _ _ _).size.trans hregions

/-- Both ticks are left by the fault of an entity; without that, both return. -/
theorem tick_outOfSight_far :
    OutOfSight (.vacant 6) .far 0 ∧ OutOfSight (.vacant 99) .far 0 ∧
      (tick (.vacant 6) true .inOrder .far 0).summary = .error (.text "stumbled") ∧
      (tick (.vacant 99) true .inOrder .far 0).summary = .ok ⟨1, 0, 0, 2, 0, 0, 3⟩ ∧
      notices (tick (.vacant 99) true .inOrder .far 0).events = [.deferredFailed (.deferredTaskFailed "late")] := by
  have hfault := tick_outOfSight (.vacant 6) .inOrder .far 0 (vacant_outOfSight 6)
  have hreturn := tick_outOfSight (.vacant 99) .inOrder .far 0 (vacant_outOfSight 99)
  refine ⟨vacant_outOfSight 6, vacant_outOfSight 99, ?_, ?_, ?_⟩
  · rw [hfault.summary]
    decide +kernel
  · rw [hreturn.summary, batchOf_far]
    decide +kernel
  · rw [hreturn.notices]
    decide +kernel

end GridTick
