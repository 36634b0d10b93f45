import GridTick.Proofs.Tick.ChunkCoverage
import GridTick.Proofs.Tick.Placement

/-!
# GridTick.Proofs.Tick.Accounts — the summary and the log say what happened

The report of a region task is read off its history: the keys that it noted, and the fault that ended it.  The reports
come back in the order of the regions, the summary adds them up, and the log names the failures among them.

* `faultOf`, `ticksOf`, `reportOf`: what the history of a task says.
* `dispatched_eq`: the outcomes of a dispatch, in order.
* `Summary.foldl_add`: the counts that outcomes add up to.
* `Served.regionTicks`, `Served.callerTicks`: who completed how many chunk ticks.
* `Accounted`, `tick_accounts`: the summary and the log of a tick.
-/

namespace GridTick

variable {σ C E : Type}

/-! ## Reports read off histories -/

/-- The fault that ended the task of a region, if one did. -/
def faultOf (events : List (Event C E)) (job : Region E × Nat) : Option Fault :=
  (historyOf (jobOrigin job) events).findSome? Event.fault?

/-- The chunk ticks that the task of a region completed. -/
def ticksOf (events : List (Event C E)) (job : Region E × Nat) : List (Lane × C × UInt32) :=
  (historyOf (jobOrigin job) events).filterMap Event.chunkTick?

/-- What the task of a region reports, by its history. -/
def reportOf (events : List (Event C E)) (job : Region E × Nat) : Outcome :=
  ⟨job.2, job.1.id, recordedKeys ∅ (historyOf (jobOrigin job) events), job.1.entities.size, faultOf events job⟩

/-- The regions of a batch with their places. -/
def Batch.numbered (b : Batch E) : List (Region E × Nat) := b.regions.toList.zipIdx

/-- The one fault of a history is the one that ended it. -/
theorem Program.Ends.findSome?_fault {o : Origin} {p : Program C E Unit} {H : List (Event C E)} {fault : Option Fault}
    (h : Program.Ends o p H (endOf fault)) : H.findSome? Event.fault? = fault := by
  cases fault with
  | none => exact List.findSome?_eq_none_iff.mpr h.fault_free
  | some fault =>
    obtain ⟨H', c, rfl, hfree⟩ := h.fault_last
    rw [List.findSome?_append, List.findSome?_eq_none_iff.mpr hfree]
    rfl

section Report

variable {plan : Plan} {speed : UInt32} {events : List (Event C E)} {job : Region E × Nat} {o : Outcome}

theorem Outcome.Serves.eq_reportOf (h : o.Serves plan speed events job) : o = reportOf events job := by
  obtain ⟨place, region, chunks, entities, fault⟩ := o
  obtain ⟨hplace, hregion, hentities, hchunks, hends⟩ := h
  have hfault : faultOf events job = fault := hends.findSome?_fault
  simp only at hplace hregion hentities hchunks
  simp only [reportOf, hplace, hregion, hentities, hchunks, hfault]

/-- A task notes one key for each chunk tick that it completes. -/
theorem Outcome.Serves.chunks_size (h : o.Serves plan speed events job) :
    o.chunks.size = (ticksOf events job).length := by
  obtain ⟨done, hnodup, -, -, hticks, hreported⟩ := h.done
  have hperm : o.chunks.toList.Perm (done.map Prod.fst) := by
    refine (List.perm_ext_iff_of_nodup (KeySet.nodup_toList _) hnodup).mpr fun k => ?_
    rw [KeySet.mem_toList, hreported]
  rw [← Std.ExtTreeSet.length_toList, hperm.length_eq, ticksOf, hticks, List.length_map, List.length_map]

end Report

/-! ## The order of the outcomes -/

section Order

variable {w : World σ C E} {plan : Plan} {turn : Turn C} {s : σ}

theorem Batch.mem_numbered {b : Batch E} {r : Region E} {i : Nat} : (r, i) ∈ b.numbered ↔ b.regions[i]? = some r := by
  rw [numbered, List.mem_zipIdx_iff_getElem?, Array.getElem?_toList]

theorem Batch.numbered_map_fst (b : Batch E) : b.numbered.map Prod.fst = b.regions.toList := List.zipIdx_map_fst ..

theorem Batch.numbered_places (b : Batch E) : b.numbered.map Prod.snd = List.range b.regions.size := by
  rw [numbered, List.zipIdx_map_snd, Array.length_toList, List.range_eq_range']

theorem jobs_batchOf (w : World σ C E) (turn : Turn C) (s : σ) :
    jobs (batchOf w turn s).regions.toList = (batchOf w turn s).numbered := by
  refine List.filter_eq_self.mpr fun ⟨r, i⟩ hr => ?_
  simp [buildBatch_nonempty (Batch.mem_numbered.mp hr)]

theorem mem_jobs_batchOf {r : Region E} {i : Nat} :
    (r, i) ∈ jobs (batchOf w turn s).regions.toList ↔ (batchOf w turn s).regions[i]? = some r := by
  rw [jobs_batchOf, Batch.mem_numbered]

theorem reportOf_tick (job : Region E × Nat) :
    reportOf (tick w true plan turn s).events.toList job = reportOf (dispatched w plan turn s).2.2.toList job := by
  rw [reportOf, reportOf, faultOf, faultOf, jobOrigin, historyOf_task]

theorem dispatched_perm : (dispatched w plan turn s).1.Perm
    ((batchOf w turn s).numbered.map (reportOf (tick w true plan turn s).events.toList)) := by
  have hserves := dispatched_serves w plan turn s
  have hplaces : ((dispatched w plan turn s).1.map Outcome.place).Perm
      ((jobs (batchOf w turn s).regions.toList).map Prod.snd) := by simpa using hserves.places
  rw [← jobs_batchOf]
  simp only [funext reportOf_tick]
  refine (List.perm_ext_iff_of_nodup ?_ ?_).mpr fun o => ?_
  · exact (hplaces.nodup_iff.mpr (jobs_nodup _)).of_map
  · refine List.Nodup.of_map Outcome.place ?_
    rw [List.map_map]
    exact jobs_nodup _
  · constructor
    · intro ho
      obtain ⟨job, hjob, hjobserves⟩ := hserves.reports o ho
      exact hjobserves.eq_reportOf ▸ List.mem_map_of_mem hjob
    · intro hmem
      obtain ⟨job, hjob, rfl⟩ := List.mem_map.mp hmem
      obtain ⟨o, ho, hjobserves⟩ := dispatched_report w plan turn s hjob
      exact hjobserves.eq_reportOf ▸ ho

theorem numbered_pairwise (hlen : turn.agents.length < UInt32.size) :
    (batchOf w turn s).numbered.Pairwise fun job job' => job.1.id.number < job'.1.id.number := by
  have hplaces : ((batchOf w turn s).numbered.map Prod.snd).Pairwise (· < ·) := by
    rw [Batch.numbered_places]
    exact List.pairwise_lt_range
  have hnumber : ∀ job ∈ (batchOf w turn s).numbered, job.1.id.number.toNat = job.2 := fun ⟨r, i⟩ hjob =>
    buildBatch_numbered hlen (Batch.mem_numbered.mp hjob)
  refine (List.pairwise_map.mp hplaces).imp_of_mem fun {a b} ha hb hab => ?_
  rw [UInt32.lt_iff_toNat_lt, hnumber a ha, hnumber b hb]
  exact hab

/-- The outcomes come in the order of the numbers of their regions. -/
theorem dispatched_sorted :
    (dispatched w plan turn s).1.Pairwise fun a b => decide (a.region.number ≤ b.region.number) = true := by
  refine List.pairwise_mergeSort ?_ ?_ _
  · intro a b c hab hbc
    simp only [decide_eq_true_eq] at hab hbc ⊢
    exact UInt32.le_trans hab hbc
  · intro a b
    simp only [Bool.or_eq_true, decide_eq_true_eq]
    exact UInt32.le_total _ _

/-- If the numbers tell outcomes apart, there is one way to put them in order. -/
theorem Outcome.eq_of_perm {outcomes outcomes' : List Outcome} (h : outcomes.Perm outcomes')
    (hnodup : (outcomes'.map fun o => o.region.number).Nodup)
    (hsorted : outcomes.Pairwise fun a b => decide (a.region.number ≤ b.region.number) = true)
    (hsorted' : outcomes'.Pairwise fun a b => decide (a.region.number ≤ b.region.number) = true) :
    outcomes = outcomes' := by
  refine h.eq_of_pairwise ?_ hsorted hsorted'
  intro a b ha hb hab hba
  exact List.inj_on_of_nodup_map hnodup (h.subset ha) hb
    (UInt32.le_antisymm (of_decide_eq_true hab) (of_decide_eq_true hba))

/-- For fewer than `2^32` agents the outcomes come in the order of the regions. -/
theorem dispatched_eq (hlen : turn.agents.length < UInt32.size) : (dispatched w plan turn s).1 =
    (batchOf w turn s).numbered.map (reportOf (tick w true plan turn s).events.toList) := by
  have hlt : ((batchOf w turn s).numbered.map (reportOf (tick w true plan turn s).events.toList)).Pairwise
      fun a b => a.region.number < b.region.number := List.pairwise_map.mpr (numbered_pairwise hlen)
  have hnodup : (((batchOf w turn s).numbered.map (reportOf (tick w true plan turn s).events.toList)).map
      fun o => o.region.number).Nodup := List.pairwise_map.mpr (hlt.imp UInt32.ne_of_lt)
  exact Outcome.eq_of_perm dispatched_perm hnodup dispatched_sorted
    (hlt.imp fun h => decide_eq_true (UInt32.le_of_lt h))

end Order

/-! ## Sums -/

theorem Summary.foldl_add (events : List (Event C E)) (numbered : List (Region E × Nat)) (t : Summary) :
    (numbered.map (reportOf events)).foldl Summary.add t =
      { t with
        failedRegions := t.failedRegions + (numbered.filter fun job => (faultOf events job).isSome).length
        regionChunks := t.regionChunks + (numbered.flatMap fun job => (reportOf events job).chunks.toList).length
        regionEntities := t.regionEntities +
          ((numbered.filter fun job => (faultOf events job).isNone).flatMap (·.1.entities.toList)).length
        skippedEntities := t.skippedEntities +
          ((numbered.filter fun job => (faultOf events job).isSome).flatMap (·.1.entities.toList)).length } := by
  induction numbered generalizing t with
  | nil => rfl
  | cons job rest ih =>
    rw [List.map_cons, List.foldl_cons, ih]
    have hsize : (reportOf events job).chunks.toList.length = (reportOf events job).chunks.size :=
      Std.ExtTreeSet.length_toList
    have hfault : (reportOf events job).fault = faultOf events job := rfl
    have hentities : (reportOf events job).entities = job.1.entities.size := rfl
    cases hf : faultOf events job with
    | none => simp [Summary.add, hfault, hentities, hsize, hf, Nat.add_assoc]
    | some fault => simp [Summary.add, hfault, hentities, hsize, hf, Nat.add_assoc, Nat.add_comm 1]

theorem Summary.add_comm (t : Summary) (a b : Outcome) : (t.add a).add b = (t.add b).add a := by
  cases ha : a.fault with
  | none =>
    cases hb : b.fault with
    | none => simp [Summary.add, ha, hb, Nat.add_right_comm]
    | some fault => simp [Summary.add, ha, hb, Nat.add_right_comm]
  | some fault =>
    cases hb : b.fault with
    | none => simp [Summary.add, ha, hb, Nat.add_right_comm]
    | some fault' => simp [Summary.add, ha, hb, Nat.add_right_comm]

/-- The counts do not depend on the order of the reports. -/
theorem Summary.foldl_add_perm {outcomes outcomes' : List Outcome} (h : outcomes.Perm outcomes') (t : Summary) :
    outcomes.foldl Summary.add t = outcomes'.foldl Summary.add t :=
  h.foldl_eq' (fun a _ b _ t => t.add_comm a b) t

/-! ## Who completed how many chunk ticks -/

section Ticks

variable {w : World σ C E} {plan : Plan} {speed : UInt32} {loaded : List C} {outcomes : List Outcome}
  {events : List (Event C E)} {batch : Batch E}

theorem lane_of_chunkTick? {e : Event C E} {o : Origin} {t : Lane × C × UInt32} (ho : e.origin? = some o)
    (ht : e.chunkTick? = some t) : t.1 = o.lane := by
  rcases e with ⟨o', c, a⟩ | _ | _ | _
  · cases ho
    cases c with
    | tickChunk c speed =>
      cases a with
      | ok _ => cases ht; rfl
      | error _ => cases ht
    | _ => cases ht
  · cases ht
  · cases ht
  · cases ht

theorem filter_lane (P : Lane → Bool) (o : Origin) (events : List (Event C E)) :
    ((historyOf o events).filterMap Event.chunkTick?).filter (fun t => P t.1) =
      if P o.lane then (historyOf o events).filterMap Event.chunkTick? else [] := by
  have hlane : ∀ t ∈ (historyOf o events).filterMap Event.chunkTick?, t.1 = o.lane := fun t ht => by
    obtain ⟨e, he, ht⟩ := List.mem_filterMap.mp ht
    exact lane_of_chunkTick? (of_decide_eq_true (List.mem_filter.mp he).2) ht
  cases hP : P o.lane with
  | true => exact List.filter_eq_self.mpr fun t ht => by rw [hlane t ht, hP]
  | false =>
    exact List.filter_eq_nil_iff.mpr fun t ht => by
      rw [hlane t ht, hP]
      exact Bool.false_ne_true

theorem Served.countP_lane (h : Served w plan speed loaded batch outcomes events) (P : Lane → Bool) :
    (events.filterMap Event.chunkTick?).countP (fun t => P t.1) =
      (batch.origins.flatMap fun o => if P o.lane then (historyOf o events).filterMap Event.chunkTick? else []).length := by
  have hperm := perm_filterMap_histories events (Batch.origins_nodup batch) h.origins fun _ => chunkTick?_of_nobody
  rw [List.countP_eq_length_filter, ← (hperm.filter _).length_eq, List.filter_flatMap]
  simp only [filter_lane]

theorem Served.regionTicks (h : Served w plan speed loaded batch outcomes events) :
    (events.filterMap Event.chunkTick?).countP (fun t => t.1 ≠ .caller) =
      ((jobs batch.regions.toList).flatMap (ticksOf events)).length := by
  rw [h.countP_lane (fun lane => lane ≠ .caller), Batch.origins, List.flatMap_cons, List.flatMap_map]
  rfl

theorem Served.callerTicks (h : Served w plan speed loaded batch outcomes events) :
    (events.filterMap Event.chunkTick?).countP (fun t => t.1 = .caller) = (leftover w outcomes loaded).length := by
  have hkeys := congrArg List.length (sweep_tickedKeys w h.caller)
  rw [tickedKeys, List.length_map, List.length_map] at hkeys
  have htasks : (((jobs batch.regions.toList).map jobOrigin).flatMap fun o =>
      if decide (o.lane = .caller) then (historyOf o events).filterMap Event.chunkTick? else []) = [] := by
    rw [List.flatMap_eq_nil_iff]
    intro o ho
    obtain ⟨job, -, rfl⟩ := List.mem_map.mp ho
    rfl
  rw [h.countP_lane (fun lane => lane = .caller), Batch.origins, List.flatMap_cons, htasks, List.append_nil, ← hkeys]
  rfl

end Ticks

/-! ## The log -/

/-- The lines of the log about failed regions. -/
def failureNotices (events : List (Event C E)) : List Notice :=
  (events.filterMap Event.notice?).filter (·.line.message = "Error during region chunk ticking")

/-- The region that a line of the log is about. -/
def Notice.region? : Notice → Option RegionId
  | .regionFailed region _ _ => some region
  | _ => none

/-- The line that the log holds for the task of a region, if it failed. -/
def failureOf (events : List (Event C E)) (job : Region E × Nat) : Option Notice :=
  (faultOf events job).map fun fault =>
    .regionFailed job.1.id (.regionTaskFailed job.1.id fault.message) (ticksOf events job).length

section Log

variable {w : World σ C E} {plan : Plan} {turn : Turn C} {s : σ}

theorem message_of_notice? {o : Outcome} {n : Notice} (h : o.notice? = some n) :
    n.line.message = "Error during region chunk ticking" := by
  obtain ⟨error, -, rfl⟩ := Option.map_eq_some_iff.mp h
  rfl

theorem message_of_joinLines {deferred : Deferred} {e : Event C E} {n : Notice} (he : e ∈ joinLines deferred)
    (h : e.notice? = some n) : n.line.message = "Deferred task failed" := by
  unfold joinLines at he
  cases hjoin : deferred.join with
  | ok a =>
    rw [hjoin] at he
    obtain rfl := List.mem_singleton.mp he
    cases h
  | error error =>
    rw [hjoin] at he
    rcases List.mem_cons.mp he with rfl | he
    · cases h
    · obtain rfl := List.mem_singleton.mp he
      cases h
      rfl

theorem failureNotices_tick : failureNotices (tick w true plan turn s).events.toList =
    (dispatched w plan turn s).1.filterMap Outcome.notice? := by
  have hlog := notices_tick w plan turn s
  rw [notices] at hlog
  rw [failureNotices, hlog, List.filter_append]
  have hfailed : ((dispatched w plan turn s).1.filterMap Outcome.notice?).filter
      (·.line.message = "Error during region chunk ticking") = (dispatched w plan turn s).1.filterMap Outcome.notice? := by
    refine List.filter_eq_self.mpr fun n hn => ?_
    obtain ⟨o, -, ho⟩ := List.mem_filterMap.mp hn
    exact decide_eq_true (message_of_notice? ho)
  have hdeferred : ((endLines w plan turn s).filterMap Event.notice?).filter
      (·.line.message = "Error during region chunk ticking") = [] := by
    refine List.filter_eq_nil_iff.mpr fun n hn => ?_
    obtain ⟨e, he, hn⟩ := List.mem_filterMap.mp hn
    rw [message_of_joinLines (mem_joinLines_of_mem_endLines he) hn]
    decide
  rw [hfailed, hdeferred, List.append_nil]

end Log

/-! ## The accounts of a tick -/

/-- The summary and the log of a tick with regions say what its history says.  A task has completed if no fault is in
its history. -/
structure Accounted (batch : Batch E) (tracked : List E) (events : List (Event C E)) (summary : Summary) : Prop where
  regions : summary.regions = batch.regions.size
  regionChunks : summary.regionChunks = (events.filterMap Event.chunkTick?).countP (fun t => t.1 ≠ .caller)
  fallbackChunks : summary.fallbackChunks = (events.filterMap Event.chunkTick?).countP (fun t => t.1 = .caller)
  regionEntities : summary.regionEntities =
    ((batch.numbered.filter fun job => (faultOf events job).isNone).flatMap (·.1.entities.toList)).length
  everybody : summary.regionEntities + summary.skippedEntities + summary.unassignedEntities = tracked.length
  failedRegions : summary.failedRegions = (failureNotices events).length
  failures : failureNotices events = batch.numbered.filterMap (failureOf events)
  increasing : ((failureNotices events).filterMap Notice.region?).Pairwise fun a b => a.number < b.number

section Accounts

variable {w : World σ C E} {plan : Plan} {turn : Turn C} {s : σ}

theorem ofPhases_of_ok {summary : Summary} (h : (tick w true plan turn s).summary = .ok summary) :
    summary = Summary.ofPhases w plan turn s := by
  rw [tick_regions.1] at h
  cases hswept : (swept w plan turn s).1 with
  | ok a =>
    rw [hswept] at h
    cases h
    rfl
  | error fault =>
    rw [hswept] at h
    cases h

theorem Batch.numbered_flatMap (batch : Batch E) :
    batch.numbered.flatMap (·.1.entities.toList) = batch.regions.toList.flatMap (·.entities.toList) := by
  rw [← batch.numbered_map_fst, List.flatMap_map]

theorem length_contents (batch : Batch E) :
    (batch.numbered.flatMap (·.1.entities.toList)).length + batch.unassigned.size = batch.contents.length := by
  rw [batch.numbered_flatMap, Batch.contents, List.length_append, Nat.add_comm,
    @Array.length_toList _ batch.unassigned]

/-- What every origin leaves for the entities of its own part, all origins leave for all that the batch holds. -/
theorem Served.perm_contents {β : Type} {speed : UInt32} {loaded : List C} {batch : Batch E} {outcomes : List Outcome}
    {events : List (Event C E)} (h : Served w plan speed loaded batch outcomes events)
    (hjobs : jobs batch.regions.toList = batch.numbered) {f : Event C E → Option β} {g : List E → List β}
    (hnil : g [] = []) (happend : ∀ l l', g (l ++ l') = g l ++ g l') (hnobody : ∀ ev, ev.origin? = none → f ev = none)
    (hcaller : (historyOf .caller events).filterMap f = g batch.unassigned.toList)
    (htask : ∀ job ∈ jobs batch.regions.toList,
      (historyOf (jobOrigin job) events).filterMap f = g job.1.entities.toList) :
    (events.filterMap f).Perm (g batch.contents) := by
  have hregions : ∀ l : List (Region E × Nat), (l.flatMap fun job => g job.1.entities.toList) =
      g (l.flatMap (·.1.entities.toList)) := by
    intro l
    induction l with
    | nil => exact hnil.symm
    | cons job rest ih => rw [List.flatMap_cons, List.flatMap_cons, happend, ih]
  have hparts : (batch.origins.flatMap fun o => (historyOf o events).filterMap f) = g batch.contents := by
    rw [Batch.origins, List.flatMap_cons, List.flatMap_map, List.flatMap_congr htask, hcaller, hregions, hjobs,
      Batch.numbered_flatMap, ← happend]
    rfl
  exact hparts ▸ (perm_filterMap_histories events (Batch.origins_nodup batch) h.origins hnobody).symm

theorem length_parts (events : List (Event C E)) (numbered : List (Region E × Nat)) :
    ((numbered.filter fun job => (faultOf events job).isNone).flatMap (·.1.entities.toList)).length +
        ((numbered.filter fun job => (faultOf events job).isSome).flatMap (·.1.entities.toList)).length =
      (numbered.flatMap (·.1.entities.toList)).length := by
  induction numbered with
  | nil => rfl
  | cons job rest ih =>
    cases hf : faultOf events job with
    | none =>
      simp [hf] at ih ⊢
      omega
    | some fault =>
      simp [hf] at ih ⊢
      omega

/-- The counts of a tick that returns, by its history. -/
theorem ofPhases_eq (w : World σ C E) (plan : Plan) (turn : Turn C) (s : σ) :
    let events := (tick w true plan turn s).events.toList
    let numbered := (batchOf w turn s).numbered
    Summary.ofPhases w plan turn s =
      { regions := (batchOf w turn s).regions.toList.countP (!·.isEmpty)
        failedRegions := (numbered.filter fun job => (faultOf events job).isSome).length
        regionChunks := (numbered.flatMap fun job => (reportOf events job).chunks.toList).length
        fallbackChunks := (leftOver w plan turn s).length
        regionEntities := ((numbered.filter fun job => (faultOf events job).isNone).flatMap (·.1.entities.toList)).length
        skippedEntities := ((numbered.filter fun job => (faultOf events job).isSome).flatMap (·.1.entities.toList)).length
        unassignedEntities := (batchOf w turn s).unassigned.size } := by
  rw [Summary.ofPhases, Summary.foldl_add_perm dispatched_perm, Summary.foldl_add]
  simp only [Summary.zero, Nat.zero_add]

/-- Every entity that is tracked at the beginning is in one of three counts. -/
theorem ofPhases_everybody (w : World σ C E) (plan : Plan) (turn : Turn C) (s : σ) :
    let summary := Summary.ofPhases w plan turn s
    summary.regionEntities + summary.skippedEntities + summary.unassignedEntities = (w.tracked s).length := by
  have hparts := length_parts (tick w true plan turn s).events.toList (batchOf w turn s).numbered
  have hcontents := length_contents (batchOf w turn s)
  have hperm : (batchOf w turn s).contents.length = (w.tracked s).length := buildBatch_contents.length_eq
  rw [ofPhases_eq]
  dsimp only
  omega

theorem Served.length_chunks {speed : UInt32} {loaded : List C} {batch : Batch E} {outcomes : List Outcome}
    {events : List (Event C E)} (h : Served w plan speed loaded batch outcomes events) {job : Region E × Nat}
    (hjob : job ∈ jobs batch.regions.toList) :
    (reportOf events job).chunks.toList.length = (ticksOf events job).length := by
  obtain ⟨o, -, hserves⟩ := h.report hjob
  rw [Std.ExtTreeSet.length_toList, ← hserves.eq_reportOf, hserves.chunks_size]

theorem ofPhases_regionChunks {summary : Summary} (h : (tick w true plan turn s).summary = .ok summary) :
    (Summary.ofPhases w plan turn s).regionChunks =
      ((tick w true plan turn s).events.toList.filterMap Event.chunkTick?).countP (fun t => t.1 ≠ .caller) := by
  have hserved := tick_served h
  have hjobs := jobs_batchOf w turn s
  rw [ofPhases_eq]
  dsimp only
  rw [hserved.regionTicks, List.length_flatMap, List.length_flatMap, ← hjobs]
  exact congrArg List.sum (List.map_congr_left fun job hjob => hserved.length_chunks hjob)

theorem failureNotices_eq (hlen : turn.agents.length < UInt32.size) {summary : Summary}
    (h : (tick w true plan turn s).summary = .ok summary) :
    failureNotices (tick w true plan turn s).events.toList =
      (batchOf w turn s).numbered.filterMap (failureOf (tick w true plan turn s).events.toList) := by
  rw [failureNotices_tick, dispatched_eq hlen, List.filterMap_map]
  refine List.filterMap_congr fun job hjob => ?_
  rw [← jobs_batchOf] at hjob
  have hsize := (tick_served h).length_chunks hjob
  rw [Std.ExtTreeSet.length_toList] at hsize
  simp only [Function.comp_apply, Outcome.notice?, Outcome.error?, Option.map_map, failureOf, hsize]
  rfl

theorem tick_accounted (hlen : turn.agents.length < UInt32.size) {summary : Summary}
    (h : (tick w true plan turn s).summary = .ok summary) :
    Accounted (batchOf w turn s) (w.tracked s) (tick w true plan turn s).events.toList summary := by
  have hfailures := failureNotices_eq hlen h
  have hregionChunks := ofPhases_regionChunks h
  have heverybody := ofPhases_everybody w plan turn s
  have hcallerTicks := (tick_served h).callerTicks
  obtain rfl := ofPhases_of_ok h
  rw [ofPhases_eq] at hregionChunks heverybody ⊢
  refine ⟨?_, hregionChunks, hcallerTicks.symm, rfl, heverybody, ?_, hfailures, ?_⟩
  · dsimp only
    rw [List.countP_eq_length.mpr, Array.length_toList]
    intro r hr
    obtain ⟨i, hi⟩ := List.getElem?_of_mem hr
    rw [Array.getElem?_toList] at hi
    rw [buildBatch_nonempty hi]
    rfl
  · dsimp only
    rw [hfailures, List.length_filterMap_eq_countP, List.countP_eq_length_filter]
    simp only [failureOf, Option.isSome_map]
  · rw [hfailures, List.filterMap_filterMap, List.pairwise_filterMap]
    -- the regions that are named are among all regions, which are numbered by their places
    have hregion : ∀ {job : Region E × Nat} {id : RegionId},
        (failureOf (tick w true plan turn s).events.toList job).bind Notice.region? = some id → job.1.id = id := by
      intro job id hid
      obtain ⟨n, hn, hid⟩ := Option.bind_eq_some_iff.mp hid
      obtain ⟨fault, -, rfl⟩ := Option.map_eq_some_iff.mp hn
      exact Option.some.inj hid
    refine (numbered_pairwise hlen).imp fun {a b} hab id hid id' hid' => ?_
    rw [← hregion hid, ← hregion hid']
    exact hab

theorem summary_of_tickSequential {summary : Summary} (h : (tickSequential w turn s).1 = .ok summary) :
    summary = ⟨0, 0, 0, turn.loaded.length, 0, 0, (w.tracked (afterChunks w turn s)).length⟩ := by
  unfold tickSequential at h
  unfold afterChunks
  generalize (Program.tickAll turn.settings.randomTickSpeed turn.loaded : Program C E Unit).run w .caller
    ⟨s, ∅, #[]⟩ = ran at h ⊢
  obtain ⟨fault | _, s', recorded, events⟩ := ran
  · cases h
  · dsimp only at h ⊢
    generalize (Program.offerAll (w.tracked s')).run w .caller ⟨s', recorded, events⟩ = ran at h
    obtain ⟨fault | _, trail⟩ := ran
    · cases h
    · cases h
      rfl

/-- The accounts of a tick over fewer than `2^32` agents that returns, with regions or without. -/
theorem tick_accounts (w : World σ C E) (plan : Plan) (turn : Turn C) (s : σ)
    (hlen : turn.agents.length < UInt32.size) :
    (∀ summary, (tick w true plan turn s).summary = .ok summary →
      Accounted (batchOf w turn s) (w.tracked s) (tick w true plan turn s).events.toList summary) ∧
    ∀ summary, (tick w false plan turn s).summary = .ok summary →
      summary = ⟨0, 0, 0, turn.loaded.length, 0, 0, (w.tracked (afterChunks w turn s)).length⟩ := by
  refine ⟨fun summary h => tick_accounted hlen h, fun summary h => summary_of_tickSequential ?_⟩
  rcases hr : tickSequential w turn s with ⟨fault | summary', s', events⟩
  · simp [tick, hr] at h
  · simpa [tick, hr] using h

end Accounts

/-- The region stumbles over its third chunk, so two of its chunks are counted.  Without regions nothing stumbles. -/
theorem tick_accounts_stumbling :
    let w := World.stumbling 11
    let w' := World.stumbling 40
    let turn := Turn.alone [Cell.key ⟨0, 0⟩, Cell.key ⟨-1, 0⟩, Cell.key ⟨40, 0⟩]
    turn.agents.length < UInt32.size ∧
      ((tick w true .inOrder turn 0).summary = .ok ⟨1, 1, 2, 2, 0, 2, 1⟩ ∧
        Accounted (batchOf w turn 0) (w.tracked 0) (tick w true .inOrder turn 0).events.toList ⟨1, 1, 2, 2, 0, 2, 1⟩) ∧
      (tick w' false .inOrder turn 0).summary = .ok ⟨0, 0, 0, 3, 0, 0, 3⟩ ∧
        (⟨0, 0, 0, 3, 0, 0, 3⟩ : Summary) =
          ⟨0, 0, 0, turn.loaded.length, 0, 0, (w'.tracked (afterChunks w' turn 0)).length⟩ := by
  intro w w' turn
  have hlen : turn.agents.length < UInt32.size := by decide
  have h : (tick w true .inOrder turn 0).summary = .ok ⟨1, 1, 2, 2, 0, 2, 1⟩ := by
    have hdispatch := dispatch_alone 11
    simp only [w, turn, tick, tickRegions, Turn.alone, World.stumbling, if_true] at hdispatch ⊢
    simp only [buildBatch_alone, hdispatch]
    decide +kernel
  have h' : (tick w' false .inOrder turn 0).summary = .ok ⟨0, 0, 0, 3, 0, 0, 3⟩ := by decide +kernel
  exact ⟨hlen, ⟨h, (tick_accounts w .inOrder turn 0 hlen).1 _ h⟩, h', (tick_accounts w' .inOrder turn 0 hlen).2 _ h'⟩

end GridTick
