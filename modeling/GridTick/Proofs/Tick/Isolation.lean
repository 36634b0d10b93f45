import GridTick.Proofs.Tick.Accounts
import GridTick.Proofs.Tick.Alone
import GridTick.Proofs.Tick.Completion

/-!
# GridTick.Proofs.Tick.Isolation — what a fault in one region changes elsewhere

Two ticks over one batch, in worlds that differ only in the calls made for one region.  If the parts of the batch share
no state, the other regions do the same in both ticks, and all that the sweep does differently is to tick those chunks
of the region that the region has not noted.

* `Twins`: such ticks.
* `Twins.historyOf_eq`, `Twins.mem_dispatched_iff`: the other regions.
* `sweptChunks`, `leftover_in_region`, `Twins.leftover_off_region`: the chunks of the sweep.
* `OutsideAlike`, `Twins.sweptOffers_eq`: the entities outside all regions.
* `Isolated`, `tick_isolation`: all of it.
-/

namespace GridTick

variable {σ τ C E : Type}

/-- Two ticks over one batch whose parts share no state.  Their worlds differ only in the calls made for the region `r`
at the place `i`: in the second one these may fault at any point. -/
structure Twins (w w' : World σ C E) (view : Option Nat → σ → τ) (plan plan' : Plan) (turn : Turn C) (s : σ) (i : Nat)
    (r : Region E) : Prop where
  region : (batchOf w turn s).regions[i]? = some r
  batch : batchOf w' turn s = batchOf w turn s
  enumerate : plan'.enumerate = plan.enumerate
  keyOf : w'.keyOf = w.keyOf
  answer : ∀ p c, w.AsksFor (batchOf w turn s) p c → p ≠ some i → w'.answer c = w.answer c
  separated : Separated w (batchOf w turn s) view
  separated' : Separated w' (batchOf w' turn s) view

/-! ## The other regions -/

section Regions

variable {w w' : World σ C E} {view : Option Nat → σ → τ} {plan plan' : Plan} {turn : Turn C} {s : σ} {i : Nat}
  {r : Region E} {job : Region E × Nat}

theorem Twins.region' (h : Twins w w' view plan plan' turn s i r) : (batchOf w' turn s).regions[i]? = some r := by
  rw [h.batch]
  exact h.region

/-- What calls for other parts find and leave is the same in both worlds. -/
theorem Twins.reads (h : Twins w w' view plan plan' turn s i r) {p : Option Nat} (hp : p ≠ some i) (c : Call C E)
    (hc : w.AsksFor (batchOf w turn s) p c) (a b : σ) (hview : view p a = view p b) :
    (w.answer c a).1 = (w'.answer c b).1 ∧ view p (w.answer c a).2 = view p (w'.answer c b).2 := by
  rw [h.answer p c hc hp]
  exact h.separated.reads p c hc a b hview

theorem Twins.alone_same (h : Twins w w' view plan plan' turn s i r)
    (hjob : job ∈ jobs (batchOf w turn s).regions.toList) (hne : job.2 ≠ i) (speed : UInt32) :
    SameRun (fun a b => view (some job.2) a = view (some job.2) b) (alone w plan speed s job)
      (alone w' plan' speed s job) := by
  have hprogram : (jobProgram plan' speed job : Program C E Unit) = jobProgram plan speed job := by
    rw [jobProgram, jobProgram, h.enumerate]
  rw [alone, alone, hprogram]
  exact Program.sameRun (h.reads fun heq => hne (Option.some.inj heq)) _ (jobProgram_asks w plan speed hjob) rfl _ _

theorem Twins.historyOf_eq (h : Twins w w' view plan plan' turn s i r)
    (hjob : job ∈ jobs (batchOf w turn s).regions.toList) (hne : job.2 ≠ i) :
    historyOf (jobOrigin job) (dispatched w' plan' turn s).2.2.toList =
      historyOf (jobOrigin job) (dispatched w plan turn s).2.2.toList := by
  have hjob' : job ∈ jobs (batchOf w' turn s).regions.toList := by
    rw [h.batch]
    exact hjob
  calc historyOf (jobOrigin job) (dispatched w' plan' turn s).2.2.toList
      = (alone w' plan' turn.settings.randomTickSpeed s job).2.events.toList := (dispatched_alone h.separated' hjob').1
    _ = (alone w plan turn.settings.randomTickSpeed s job).2.events.toList := by rw [(h.alone_same hjob hne _).events]
    _ = historyOf (jobOrigin job) (dispatched w plan turn s).2.2.toList := (dispatched_alone h.separated hjob).1.symm

theorem mem_dispatched {o : Outcome} : o ∈ (dispatched w plan turn s).1 ↔
    ∃ job ∈ jobs (batchOf w turn s).regions.toList, reportOf (dispatched w plan turn s).2.2.toList job = o := by
  rw [dispatched_perm.mem_iff, ← jobs_batchOf, List.mem_map]
  simp only [reportOf_tick]

theorem dispatched_places : ((dispatched w plan turn s).1.map Outcome.place).Perm
    (List.range (batchOf w turn s).regions.size) := by
  have hplaces : (jobs (batchOf w turn s).regions.toList).map Prod.snd = List.range (batchOf w turn s).regions.size :=
    buildBatch_places
  rw [← hplaces]
  simpa using (dispatched_serves w plan turn s).places

theorem fault_of_place (hr : (batchOf w turn s).regions[i]? = some r) {o : Outcome}
    (ho : o ∈ (dispatched w plan turn s).1) (hplace : o.place = i) :
    o.fault = faultOf (tick w true plan turn s).events.toList (r, i) := by
  obtain ⟨⟨r', j⟩, hjob, rfl⟩ := mem_dispatched.mp ho
  obtain rfl : j = i := hplace
  obtain rfl := Option.some.inj (hr.symm.trans (mem_jobs_batchOf.mp hjob))
  rw [← reportOf_tick]
  rfl

theorem Twins.mem_dispatched_iff (h : Twins w w' view plan plan' turn s i r) {o : Outcome} (hne : o.place ≠ i) :
    o ∈ (dispatched w' plan' turn s).1 ↔ o ∈ (dispatched w plan turn s).1 := by
  rw [mem_dispatched, mem_dispatched, h.batch]
  refine exists_congr fun job => and_congr_right fun hjob => ?_
  by_cases hplace : job.2 = i
  · have hother : ∀ events : List (Event C E), reportOf events job ≠ o := fun events heq => hne (heq ▸ hplace)
    exact iff_of_false (hother _) (hother _)
  · rw [reportOf, reportOf, faultOf, faultOf, h.historyOf_eq hjob hplace]

end Regions

/-! ## The chunks of the sweep -/

/-- The chunks that the calling thread has ticked, in order. -/
def sweptChunks (events : List (Event C E)) : List C :=
  ((historyOf .caller events).filterMap Event.chunkTick?).map fun t => t.2.1

section Chunks

variable {w w' : World σ C E} {view : Option Nat → σ → τ} {plan plan' : Plan} {turn : Turn C} {s : σ} {i : Nat}
  {r : Region E}

theorem offered_of_callerFaultless (h : CallerFaultless (tick w true plan turn s).events.toList) :
    offered (historyOf .caller (tick w true plan turn s).events.toList) = (batchOf w turn s).unassigned.toList := by
  have hends := (swept_ends w plan turn s).1
  rw [callerFaultless_iff.mp h] at hends
  rw [historyOf_caller]
  exact sweep_offered hends

theorem called_of_error {fault : Fault} (h : (tick w true plan turn s).summary = .error fault) :
    ∃ c, .called .caller c (.error fault) ∈ (tick w true plan turn s).events.toList := by
  rw [tick_regions.1] at h
  cases hswept : (swept w plan turn s).1 with
  | ok a =>
    rw [hswept] at h
    cases h
  | error fault' =>
    rw [hswept] at h
    cases h
    obtain ⟨H, c, hH, -⟩ := historyOf_caller_of_error hswept
    have hmem : .called .caller c (.error fault) ∈ historyOf .caller (tick w true plan turn s).events.toList := by
      rw [hH]
      simp
    exact ⟨c, List.mem_of_mem_filter hmem⟩

theorem sweptChunks_tick (h : (swept w plan turn s).1 = .ok ()) :
    sweptChunks (tick w true plan turn s).events.toList = leftOver w plan turn s := by
  have hends := (swept_ends w plan turn s).1
  rw [h] at hends
  rw [sweptChunks, historyOf_caller, sweep_chunkTicks hends, List.map_map]
  exact List.map_id _

theorem Outcome.Serves.chunks_subset {speed : UInt32} {events : List (Event C E)} {job : Region E × Nat} {o : Outcome}
    (h : o.Serves plan speed events job) {k : Key} (hk : k ∈ o.chunks) : k ∈ job.1.chunks := by
  obtain ⟨done, -, hchunks, -, -, hreported⟩ := h.done
  exact hchunks k ((hreported k).mp hk)

theorem chunks_of_place (hr : (batchOf w turn s).regions[i]? = some r) {o : Outcome}
    (ho : o ∈ (dispatched w plan turn s).1) (hplace : o.place = i) {k : Key} (hk : k ∈ o.chunks) : k ∈ r.chunks := by
  obtain ⟨⟨r', j⟩, hjob, hserves⟩ := (dispatched_serves w plan turn s).reports o ho
  obtain rfl : j = i := hserves.place.symm.trans hplace
  obtain rfl := Option.some.inj (hr.symm.trans (mem_jobs_batchOf.mp hjob))
  exact hserves.chunks_subset hk

/-- Whether a chunk of a region is done is for the report of that region to say. -/
theorem mem_ticked_in_region (hr : (batchOf w turn s).regions[i]? = some r) {k : Key} (hk : k ∈ r.chunks) :
    k ∈ ticked (dispatched w plan turn s).1 ↔
      k ∈ recordedKeys ∅ (historyOf (.task i r.id) (tick w true plan turn s).events.toList) := by
  rw [mem_ticked, historyOf_task]
  constructor
  · rintro ⟨o, ho, hmem⟩
    obtain ⟨⟨r', j⟩, hjob, hserves⟩ := (dispatched_serves w plan turn s).reports o ho
    have hr' := mem_jobs_batchOf.mp hjob
    have hij : j = i := by
      by_contra hne
      exact buildBatch_disjoint hr' hr hne (hserves.chunks_subset hmem) hk
    subst hij
    obtain rfl := Option.some.inj (hr.symm.trans hr')
    rw [hserves.chunks] at hmem
    exact hmem
  · intro hmem
    obtain ⟨o, ho, hserves⟩ := dispatched_report w plan turn s (mem_jobs_batchOf.mpr hr)
    exact ⟨o, ho, hserves.chunks ▸ hmem⟩

/-- The chunks of a region that are left to the sweep are those that the region has not noted. -/
theorem leftover_in_region (hr : (batchOf w turn s).regions[i]? = some r) :
    (leftOver w plan turn s).filter (fun c => w.keyOf c ∈ r.chunks) = turn.loaded.filter fun c =>
      w.keyOf c ∈ r.chunks ∧
        w.keyOf c ∉ recordedKeys ∅ (historyOf (.task i r.id) (tick w true plan turn s).events.toList) := by
  rw [leftOver, leftover_eq_filter, List.filter_filter]
  refine List.filter_congr fun c _ => ?_
  by_cases hc : w.keyOf c ∈ r.chunks
  · have hticked : w.keyOf c ∈ ticked (dispatched w plan turn s).1 ↔ _ := mem_ticked_in_region hr hc
    simp [hc, hticked]
  · simp [hc]

theorem Twins.leftover_off_region (h : Twins w w' view plan plan' turn s i r) :
    (leftOver w' plan' turn s).filter (fun c => w.keyOf c ∉ r.chunks) =
      (leftOver w plan turn s).filter fun c => w.keyOf c ∉ r.chunks := by
  have hticked : ∀ k ∉ r.chunks, k ∈ ticked (dispatched w' plan' turn s).1 ↔ k ∈ ticked (dispatched w plan turn s).1 := by
    intro k hnot
    rw [mem_ticked, mem_ticked]
    refine exists_congr fun o => and_congr_left fun hk => ?_
    -- the report of the region itself may differ, but does not hold such a key in either tick
    by_cases hplace : o.place = i
    · exact iff_of_false (fun ho => hnot (chunks_of_place h.region' ho hplace hk)) fun ho =>
        hnot (chunks_of_place h.region ho hplace hk)
    · exact h.mem_dispatched_iff hplace
  rw [leftOver, leftOver, leftover_eq_filter, leftover_eq_filter, List.filter_filter, List.filter_filter, h.keyOf]
  refine List.filter_congr fun c _ => ?_
  by_cases hc : w.keyOf c ∈ r.chunks
  · simp [hc]
  · simp [hc, hticked _ hc]

end Chunks

/-! ## The entities outside all regions -/

/-- A key that is in no region. -/
def Batch.leavesOut (batch : Batch E) (k : Key) : Bool := batch.regions.all fun r => k ∉ r.chunks

/-- Ticks of chunks that are in no region change what the entities outside use in the same way in both worlds. -/
def OutsideAlike (w w' : World σ C E) (batch : Batch E) (view : Option Nat → σ → τ) : Prop :=
  ∀ (c : C) (speed : UInt32), batch.leavesOut (w.keyOf c) → ∀ s s', view none s = view none s' →
    view none (w.answer (.tickChunk c speed) s).2 = view none (w'.answer (.tickChunk c speed) s').2

def Event.ticksIn (w : World σ C E) (keys : KeySet) : Event C E → Bool
  | .called _ (.tickChunk c _) _ => w.keyOf c ∈ keys
  | _ => false

/-- State after ticks of chunks that do not fault. -/
def afterTicks (w : World σ C E) (speed : UInt32) (chunks : List C) (s : σ) : σ :=
  chunks.foldl (fun s c => (w.answer (.tickChunk c speed) s).2) s

/-- The sweep of a tick, after its chunks: the entities outside all regions are offered their ticks. -/
def sweptOffers (w : World σ C E) (plan : Plan) (turn : Turn C) (s : σ) : Except Fault Unit × Trail σ C E :=
  (Program.offerAll (batchOf w turn s).unassigned.toList).run w .caller
    ⟨afterTicks w turn.settings.randomTickSpeed (leftOver w plan turn s) (dispatched w plan turn s).2.1, ∅, #[]⟩

section Outside

variable {w w' : World σ C E} {batch : Batch E} {view : Option Nat → σ → τ} {plan plan' : Plan} {turn : Turn C} {s : σ}
  {i : Nat} {r : Region E}

theorem run_tickAll_ok (w : World σ C E) (o : Origin) (speed : UInt32) (chunks : List C) (t : Trail σ C E)
    (h : ((Program.tickAll speed chunks : Program C E Unit).run w o t).1 = .ok ()) :
    (Program.tickAll speed chunks : Program C E Unit).run w o t = (.ok (), ⟨afterTicks w speed chunks t.state, t.recorded,
      t.events ++ (chunks.map fun c => .called o (.tickChunk c speed) (.ok ())).toArray⟩) := by
  induction chunks generalizing t with
  | nil => simp [Program.tickAll, Program.run, afterTicks]
  | cons c rest ih =>
    obtain ⟨s, keys, events⟩ := t
    rcases hans : w.answer (.tickChunk c speed) s with ⟨fault | _, s'⟩
    · simp [Program.tickAll, Program.call, Program.run, hans] at h
    · simp only [Program.tickAll, Program.bind_eq, Program.call, Program.ask_bind, Program.done_bind, Program.run,
        hans] at h ⊢
      rw [ih _ h]
      simp [afterTicks, hans]

/-- What a sweep leaves that returns: ticks of all its chunks, then the offers. -/
theorem swept_events (h : (swept w plan turn s).1 = .ok ()) : (swept w plan turn s).2.events.toList =
    (leftOver w plan turn s).map (fun c => .called .caller (.tickChunk c turn.settings.randomTickSpeed) (.ok ())) ++
      (sweptOffers w plan turn s).2.events.toList := by
  unfold swept at h ⊢
  rw [sweep, Program.bind_eq, Program.run_bind] at h ⊢
  have hticks := run_tickAll_ok w .caller turn.settings.randomTickSpeed (leftOver w plan turn s)
    ⟨(dispatched w plan turn s).2.1, ∅, #[]⟩
  rcases hran : (Program.tickAll turn.settings.randomTickSpeed (leftOver w plan turn s) : Program C E Unit).run w .caller
    ⟨(dispatched w plan turn s).2.1, ∅, #[]⟩ with ⟨fault | _, trail⟩
  · rw [hran] at h
    cases h
  · rw [hran] at hticks
    obtain ⟨-, rfl⟩ := Prod.mk.inj (hticks rfl)
    dsimp only
    rw [Program.run_from, sweptOffers]
    simp

theorem OutsideAlike.right (hkey : w'.keyOf = w.keyOf) (h : OutsideAlike w w' batch view) :
    OutsideAlike w' w' batch view := by
  intro c speed hc s s' hview
  rw [hkey] at hc
  exact (h c speed hc s s rfl).symm.trans (h c speed hc s s' hview)

/-- Ticks of chunks in the regions can be left out: the entities outside do not see them. -/
theorem view_afterTicks (hsep : Separated w batch view) (hout : OutsideAlike w w' batch view) (speed : UInt32)
    (chunks : List C) {s s' : σ} (h : view none s = view none s') : view none (afterTicks w speed chunks s) =
      view none (afterTicks w' speed (chunks.filter fun c => batch.leavesOut (w.keyOf c)) s') := by
  induction chunks generalizing s s' with
  | nil => exact h
  | cons c rest ih =>
    by_cases hc : batch.leavesOut (w.keyOf c)
    · rw [List.filter_cons_of_pos (by exact hc)]
      exact ih (hout c speed hc s s' h)
    · rw [List.filter_cons_of_neg (by exact hc)]
      obtain ⟨j, hj, hmem⟩ : ∃ j, ∃ hj : j < batch.regions.size, w.keyOf c ∈ batch.regions[j].chunks := by
        simpa [Batch.leavesOut] using hc
      have hasks : w.AsksFor batch (some j) (.tickChunk c speed) := .tickLoaded (Array.getElem?_eq_getElem hj) hmem
      exact ih ((hsep.writes _ _ hasks none (by simp) s).trans h)

theorem filter_leavesOut (hr : batch.regions[i]? = some r) (L : List C) :
    (L.filter fun c => w.keyOf c ∉ r.chunks).filter (fun c => batch.leavesOut (w.keyOf c)) =
      L.filter fun c => batch.leavesOut (w.keyOf c) := by
  obtain ⟨hi, rfl⟩ := Array.getElem?_eq_some_iff.mp hr
  rw [List.filter_filter]
  refine List.filter_congr fun c _ => ?_
  cases hc : batch.leavesOut (w.keyOf c) with
  | false => rfl
  | true => simpa using of_decide_eq_true (Array.all_eq_true.mp hc i hi)

/-- The entities outside all regions are offered their ticks with the same calls and the same answers. -/
theorem Twins.sweptOffers_eq (h : Twins w w' view plan plan' turn s i r)
    (hout : OutsideAlike w w' (batchOf w turn s) view) :
    (sweptOffers w' plan' turn s).2.events = (sweptOffers w plan turn s).2.events := by
  have hstart : view none (dispatched w plan turn s).2.1 = view none (dispatched w' plan' turn s).2.1 :=
    (dispatched_view_none h.separated).trans (dispatched_view_none h.separated').symm
  have hleft : (leftOver w' plan' turn s).filter (fun c => (batchOf w turn s).leavesOut (w'.keyOf c)) =
      (leftOver w plan turn s).filter fun c => (batchOf w turn s).leavesOut (w.keyOf c) := by
    rw [h.keyOf, ← filter_leavesOut h.region, h.leftover_off_region, filter_leavesOut h.region]
  have hsep' : Separated w' (batchOf w turn s) view := h.batch ▸ h.separated'
  -- both sweeps come to the state that the ticks of the chunks outside lead to
  have hview := view_afterTicks h.separated hout turn.settings.randomTickSpeed (leftOver w plan turn s) hstart
  have hview' := view_afterTicks hsep' (hout.right h.keyOf) turn.settings.randomTickSpeed (leftOver w' plan' turn s)
    (Eq.refl (view none (dispatched w' plan' turn s).2.1))
  rw [hleft] at hview'
  have hasks : (Program.offerAll (batchOf w turn s).unassigned.toList).Asks w (w.AsksFor (batchOf w turn s) none)
      fun _ => True :=
    Program.offerAll_asks fun e he c hc => .unassigned (Array.mem_toList_iff.mp he) hc
  rw [sweptOffers, sweptOffers, h.batch]
  exact (Program.sameRun (h.reads (by simp)) .caller hasks (hview.trans hview'.symm) ∅ #[]).events.symm

theorem Twins.caller_eq (h : Twins w w' view plan plan' turn s i r) (hout : OutsideAlike w w' (batchOf w turn s) view)
    (hok : (swept w plan turn s).1 = .ok ()) (hok' : (swept w' plan' turn s).1 = .ok ()) :
    (historyOf .caller (tick w' true plan' turn s).events.toList).filter (!·.ticksIn w r.chunks) =
      (historyOf .caller (tick w true plan turn s).events.toList).filter (!·.ticksIn w r.chunks) := by
  have hfilter : ∀ L : List C, (L.map fun c => (.called .caller (.tickChunk c turn.settings.randomTickSpeed) (.ok ()) :
      Event C E)).filter (!·.ticksIn w r.chunks) = (L.filter fun c => w.keyOf c ∉ r.chunks).map
        fun c => .called .caller (.tickChunk c turn.settings.randomTickSpeed) (.ok ()) := by
    intro L
    rw [List.filter_map]
    refine congrArg _ (List.filter_congr fun c _ => ?_)
    simp [Event.ticksIn]
  rw [historyOf_caller, historyOf_caller, swept_events hok, swept_events hok', List.filter_append, List.filter_append,
    hfilter, hfilter, h.leftover_off_region, h.sweptOffers_eq hout]

end Outside

/-! ## Isolation -/

/-- What such ticks have in common.  In the second one every region is reported, that at the place `i` with the fault of
its own task, and a fault that leaves the tick comes from the calling thread.  The other regions have the same outcomes
and make the same calls with the same answers.  If the calling thread does not fault, it ticks those chunks of the
region that its task has not noted; off the region it ticks the same chunks, and it offers all entities outside the
regions their ticks, with the same answers unless ticks of chunks in no region tell the worlds apart. -/
structure Isolated (w w' : World σ C E) (batch : Batch E) (view : Option Nat → σ → τ) (loaded : List C) (i : Nat)
    (r : Region E) (outcomes outcomes' : List Outcome) (result result' : TickResult σ C E) : Prop where
  reported : (outcomes'.map Outcome.place).Perm (List.range batch.regions.size)
  held : ∀ o ∈ outcomes', o.place = i → o.fault = faultOf result'.events.toList (r, i)
  left : ∀ fault, result'.summary = .error fault → ∃ c, .called .caller c (.error fault) ∈ result'.events.toList
  outcomes : ∀ o, o.place ≠ i → (o ∈ outcomes' ↔ o ∈ outcomes)
  callbacks : ∀ j r', batch.regions[j]? = some r' → j ≠ i →
    historyOf (.task j r'.id) result'.events.toList = historyOf (.task j r'.id) result.events.toList
  retried : CallerFaultless result'.events.toList →
    (sweptChunks result'.events.toList).filter (fun c => w.keyOf c ∈ r.chunks) = loaded.filter fun c =>
      w.keyOf c ∈ r.chunks ∧ w.keyOf c ∉ recordedKeys ∅ (historyOf (.task i r.id) result'.events.toList)
  sweptOff : CallerFaultless result.events.toList → CallerFaultless result'.events.toList →
    (sweptChunks result'.events.toList).filter (fun c => w.keyOf c ∉ r.chunks) =
      (sweptChunks result.events.toList).filter fun c => w.keyOf c ∉ r.chunks
  unassigned : CallerFaultless result.events.toList → CallerFaultless result'.events.toList →
    offered (historyOf .caller result.events.toList) = batch.unassigned.toList ∧
      offered (historyOf .caller result'.events.toList) = batch.unassigned.toList
  sweptAlike : OutsideAlike w w' batch view → CallerFaultless result.events.toList →
    CallerFaultless result'.events.toList →
    (historyOf .caller result'.events.toList).filter (!·.ticksIn w r.chunks) =
      (historyOf .caller result.events.toList).filter (!·.ticksIn w r.chunks)

/-- A region that faults changes nothing for the other regions and for what is outside all regions. -/
theorem tick_isolation (w w' : World σ C E) (view : Option Nat → σ → τ) (plan plan' : Plan) (turn : Turn C) (s : σ)
    (i : Nat) (r : Region E) (h : Twins w w' view plan plan' turn s i r) :
    Isolated w w' (batchOf w turn s) view turn.loaded i r (dispatched w plan turn s).1 (dispatched w' plan' turn s).1
      (tick w true plan turn s) (tick w' true plan' turn s) := by
  refine ⟨?_, fun o ho hplace => fault_of_place h.region' ho hplace, fun fault hfault => called_of_error hfault,
    fun o ho => h.mem_dispatched_iff ho, fun j r₁ hj hne => ?_, fun hok' => ?_, fun hok hok' => ?_,
    fun hok hok' => ⟨offered_of_callerFaultless hok, ?_⟩, fun hout hok hok' => ?_⟩
  · rw [← h.batch]
    exact dispatched_places
  · rw [historyOf_task, historyOf_task]
    exact h.historyOf_eq (mem_jobs_batchOf.mpr hj) hne
  · rw [sweptChunks_tick (callerFaultless_iff.mp hok'), ← h.keyOf]
    exact leftover_in_region h.region'
  · rw [sweptChunks_tick (callerFaultless_iff.mp hok), sweptChunks_tick (callerFaultless_iff.mp hok')]
    exact h.leftover_off_region
  · rw [← h.batch]
    exact offered_of_callerFaultless hok'
  · exact h.caller_eq hout (callerFaultless_iff.mp hok) (callerFaultless_iff.mp hok')

/-- Worlds side by side that differ in one region. -/
theorem sideBySide_twins {n n' : Option Nat → Nat} (h : ∀ p, p ≠ some 1 → n' p = n p) (loaded : List Key)
    (s : Option Nat → Nat) : Twins (.sideBySide n) (.sideBySide n') (fun p s => s p) .inOrder .inOrder (.pair loaded) s 1
      ⟨.ofPlace 1, keysAround 10, #[1]⟩ := by
  refine ⟨?_, ?_, rfl, rfl, fun p c hc hp => ?_, ?_, ?_⟩
  · rw [batchOf_pair]
    rfl
  · rw [batchOf_pair, batchOf_pair]
  · rw [batchOf_pair] at hc
    obtain rfl := part_of_asksFor hc
    simp only [World.sideBySide, h _ hp]
  · rw [batchOf_pair]
    exact sideBySide_separated n
  · rw [batchOf_pair]
    exact sideBySide_separated n'

theorem dispatched_sideBySide (n : Option Nat → Nat) (loaded : List Key) (s : Option Nat → Nat) :
    let a := (Task.ofRegion .inOrder 3 ⟨.ofPlace 0, keysAround 0, #[0]⟩ 0 : Task Key Nat).finish (.sideBySide n) s #[]
    let b := (Task.ofRegion .inOrder 3 ⟨.ofPlace 1, keysAround 10, #[1]⟩ 1 : Task Key Nat).finish (.sideBySide n) a.2.1 a.2.2
    dispatched (.sideBySide n) .inOrder (.pair loaded) s = ([a.1, b.1], b.2) := by
  rw [dispatched, batchOf_pair]
  exact dispatch_pair _ rfl 3 (by decide +kernel) (by decide +kernel) (by decide) s

/-- The second region stumbles over its third chunk in the second tick; the calling thread ticks what it has left. -/
theorem tick_isolation_sideBySide :
    let w := World.sideBySide fun _ => 99
    let w' := World.sideBySide fun p => if p = some 1 then 11 else 99
    let turn := Turn.pair [Cell.key ⟨0, 0⟩, Cell.key ⟨9, 0⟩, Cell.key ⟨11, 1⟩, Cell.key ⟨40, 0⟩]
    let start : Option Nat → Nat := fun _ => 0
    let r : Region Nat := ⟨.ofPlace 1, keysAround 10, #[1]⟩
    ((tick w true .inOrder turn start).summary = .ok ⟨2, 0, 18, 1, 2, 0, 1⟩ ∧
        (tick w' true .inOrder turn start).summary = .ok ⟨2, 1, 11, 2, 1, 1, 1⟩) ∧
      Twins w w' (fun p s => s p) .inOrder .inOrder turn start 1 r ∧
      Isolated w w' (batchOf w turn start) (fun p s => s p) turn.loaded 1 r (dispatched w .inOrder turn start).1
        (dispatched w' .inOrder turn start).1 (tick w true .inOrder turn start) (tick w' true .inOrder turn start) := by
  intro w w' turn start r
  have h : (tick w true .inOrder turn start).summary = .ok ⟨2, 0, 18, 1, 2, 0, 1⟩ := by
    rw [tick_regions.1]
    simp only [w, turn, swept, leftOver, Summary.ofPhases, dispatched_sideBySide, batchOf_pair]
    decide +kernel
  have h' : (tick w' true .inOrder turn start).summary = .ok ⟨2, 1, 11, 2, 1, 1, 1⟩ := by
    rw [tick_regions.1]
    simp only [w', turn, swept, leftOver, Summary.ofPhases, dispatched_sideBySide, batchOf_pair]
    decide +kernel
  have htwins : Twins w w' (fun p s => s p) .inOrder .inOrder turn start 1 r := sideBySide_twins (fun p hp => if_neg hp) _ _
  exact ⟨⟨h, h'⟩, htwins, tick_isolation w w' _ .inOrder .inOrder turn start 1 r htwins⟩

end GridTick
