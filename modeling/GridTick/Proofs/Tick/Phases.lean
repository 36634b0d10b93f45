import GridTick.Proofs.Tick.Turns

/-!
# GridTick.Proofs.Tick.Phases — a tick with regions, phase by phase

A tick with regions dispatches its batch, logs what failed, and lets the calling thread sweep up.  A fault of the sweep
is the only thing that can leave the tick; the deferred work is joined if none does.

* `batchOf`, `dispatched`, `swept`: what the phases give.
* `Summary.ofPhases`: the counts of a tick that returns.
* `tick_regions`: the tick, made of its phases.
* `historyOf_task`, `historyOf_caller`: who left what.
* `callerFaultless_iff`: when the sweep returns.
* `notices_tick`: the log.
-/

namespace GridTick

variable {σ C E α : Type}

/-! ## Runs that go on from a trail -/

/-- What came before a run changes nothing in it. -/
theorem Program.run_from (w : World σ C E) (o : Origin) (p : Program C E α) (s : σ) (keys : KeySet)
    (events : Array (Event C E)) :
    p.run w o ⟨s, keys, events⟩ =
      ((p.run w o ⟨s, keys, #[]⟩).1, ⟨(p.run w o ⟨s, keys, #[]⟩).2.state, (p.run w o ⟨s, keys, #[]⟩).2.recorded,
        events ++ (p.run w o ⟨s, keys, #[]⟩).2.events⟩) := by
  induction p generalizing s keys events with
  | done a => simp [run]
  | mark m rest ih =>
    simp only [run]
    rw [ih, ih s (m.record keys) (#[].push (.marked o m))]
    simp
  | ask c next ih =>
    rcases hans : w.answer c s with ⟨answer, s'⟩
    cases answer with
    | ok a =>
      simp only [run, hans]
      rw [ih, ih a s' keys (#[].push (.called o c (.ok a)))]
      simp
    | error fault => simp [run, hans]

theorem Program.ends_of_run_nil (w : World σ C E) (o : Origin) (p : Program C E α) (s : σ) :
    Ends o p (p.run w o ⟨s, ∅, #[]⟩).2.events.toList (p.run w o ⟨s, ∅, #[]⟩).1 ∧
      ∀ e ∈ (p.run w o ⟨s, ∅, #[]⟩).2.events.toList, w.Gives e := by
  obtain ⟨H, hext, hends⟩ := ends_of_run w o p ⟨s, ∅, #[]⟩
  have hevents : (p.run w o ⟨s, ∅, #[]⟩).2.events.toList = H := by simpa using hext.events
  rw [hevents]
  exact ⟨hends, hext.given⟩

/-! ## The phases -/

section Phases

variable (w : World σ C E) (plan : Plan) (turn : Turn C) (s : σ)

def batchOf : Batch E := buildBatch (w.cellOf s) (w.tracked s) turn.agents turn.settings.viewDistance

/-- What the region tasks give: their outcomes, the state, and the history. -/
def dispatched : List Outcome × σ × Array (Event C E) :=
  dispatch w plan turn.settings.randomTickSpeed (batchOf w turn s).regions.toList s #[]

/-- The failures that the tasks report, as lines of the log. -/
def failureLines (outcomes : List Outcome) : List (Event C E) := (outcomes.filterMap Outcome.notice?).map .noticed

def leftOver : List C := leftover w (dispatched w plan turn s).1 turn.loaded

/-- The sweep of the calling thread, which starts where the tasks have ended. -/
def swept : Except Fault Unit × Trail σ C E :=
  (sweep turn.settings.randomTickSpeed (leftOver w plan turn s) (batchOf w turn s).unassigned.toList).run w .caller
    ⟨(dispatched w plan turn s).2.1, ∅, #[]⟩

/-- All that is left before the deferred work is joined. -/
def beforeJoin : List (Event C E) :=
  (dispatched w plan turn s).2.2.toList ++ failureLines (dispatched w plan turn s).1 ++
    (swept w plan turn s).2.events.toList

/-- What the joining of the deferred work leaves. -/
def joinLines (deferred : Deferred) : List (Event C E) :=
  match deferred.join with
  | .ok _ => [.joined]
  | .error error => [.joined, .noticed (.deferredFailed error)]

/-- What is left after the sweep: the joining, if the sweep returned. -/
def endLines : List (Event C E) :=
  match (swept w plan turn s).1 with
  | .ok _ => joinLines turn.deferred
  | .error _ => []

/-- The counts of a tick that returns. -/
def Summary.ofPhases : Summary :=
  { (dispatched w plan turn s).1.foldl Summary.add
      { Summary.zero with regions := (batchOf w turn s).regions.toList.countP (!·.isEmpty) } with
    fallbackChunks := (leftOver w plan turn s).length
    unassignedEntities := (batchOf w turn s).unassigned.size }

end Phases

section Tick

variable {w : World σ C E} {plan : Plan} {turn : Turn C} {s : σ}

theorem run_sweep (w : World σ C E) (plan : Plan) (turn : Turn C) (s : σ) :
    (sweep turn.settings.randomTickSpeed (leftOver w plan turn s) (batchOf w turn s).unassigned.toList).run w .caller
      ⟨(dispatched w plan turn s).2.1, ∅, (dispatched w plan turn s).2.2 ++
        ((dispatched w plan turn s).1.filterMap Outcome.notice?).toArray.map Event.noticed⟩ =
    ((swept w plan turn s).1, ⟨(swept w plan turn s).2.state, (swept w plan turn s).2.recorded,
      (beforeJoin w plan turn s).toArray⟩) := by
  have hevents : (beforeJoin w plan turn s).toArray = (dispatched w plan turn s).2.2 ++
      ((dispatched w plan turn s).1.filterMap Outcome.notice?).toArray.map Event.noticed ++
        (swept w plan turn s).2.events := by
    apply Array.toList_inj.mp
    simp [beforeJoin, failureLines]
  rw [Program.run_from, hevents]
  rfl

theorem tickRegions_eq (w : World σ C E) (plan : Plan) (turn : Turn C) (s : σ) : tickRegions w plan turn s =
    ((swept w plan turn s).1.map fun _ => Summary.ofPhases w plan turn s, (swept w plan turn s).2.state,
      (beforeJoin w plan turn s).toArray) := by
  have hrun := run_sweep w plan turn s
  simp only [leftOver, dispatched, batchOf] at hrun
  unfold tickRegions
  dsimp only
  rw [hrun]
  cases (swept w plan turn s).1 with
  | ok a => rfl
  | error fault => rfl

theorem joinDeferred_eq (deferred : Deferred) (events : Array (Event C E)) :
    (joinDeferred deferred events).toList = events.toList ++ joinLines deferred := by
  unfold joinDeferred joinLines
  cases deferred.join <;> simp

/-- A tick with regions ends as its sweep does, and joins the deferred work only if the sweep returns. -/
theorem tick_regions : (tick w true plan turn s).summary =
      ((swept w plan turn s).1.map fun _ => Summary.ofPhases w plan turn s) ∧
    (tick w true plan turn s).events.toList = beforeJoin w plan turn s ++ endLines w plan turn s := by
  have hregions := tickRegions_eq w plan turn s
  cases hswept : (swept w plan turn s).1 with
  | ok a =>
    simp only [hswept, Except.map] at hregions
    simp [tick, hregions, endLines, hswept, joinDeferred_eq, Except.map]
  | error fault =>
    simp only [hswept, Except.map] at hregions
    simp [tick, hregions, endLines, hswept, Except.map]

theorem state_tick (w : World σ C E) (plan : Plan) (turn : Turn C) (s : σ) :
    (tick w true plan turn s).state = (swept w plan turn s).2.state := by
  rw [tick, if_pos rfl, tickRegions_eq]
  cases (swept w plan turn s).1 with
  | ok a => rfl
  | error fault => rfl

/-! ## Who left what -/

theorem origin?_of_failureLines {outcomes : List Outcome} {e : Event C E} (he : e ∈ failureLines outcomes) :
    e.origin? = none := by
  obtain ⟨_, -, rfl⟩ := List.mem_map.mp he
  rfl

theorem origin?_of_joinLines {deferred : Deferred} {e : Event C E} (he : e ∈ joinLines deferred) :
    e.origin? = none := by
  unfold joinLines at he
  cases hjoin : deferred.join with
  | ok a =>
    rw [hjoin] at he
    obtain rfl := List.mem_singleton.mp he
    rfl
  | error error =>
    rw [hjoin] at he
    rcases List.mem_cons.mp he with rfl | he
    · rfl
    · obtain rfl := List.mem_singleton.mp he
      rfl

theorem dispatched_serves (w : World σ C E) (plan : Plan) (turn : Turn C) (s : σ) :
    Pool.Serves plan turn.settings.randomTickSpeed w (jobs (batchOf w turn s).regions.toList)
      ⟨[], (dispatched w plan turn s).1, (dispatched w plan turn s).2.1, (dispatched w plan turn s).2.2⟩ :=
  dispatch_serves w plan turn.settings.randomTickSpeed (batchOf w turn s).regions.toList s

theorem dispatched_report (w : World σ C E) (plan : Plan) (turn : Turn C) (s : σ) {job : Region E × Nat}
    (hjob : job ∈ jobs (batchOf w turn s).regions.toList) : ∃ o ∈ (dispatched w plan turn s).1,
      o.Serves plan turn.settings.randomTickSpeed (dispatched w plan turn s).2.2.toList job :=
  exists_report (by simpa using (dispatched_serves w plan turn s).places) (dispatched_serves w plan turn s).reports hjob

theorem swept_ends (w : World σ C E) (plan : Plan) (turn : Turn C) (s : σ) :
    Program.Ends .caller
        (sweep turn.settings.randomTickSpeed (leftOver w plan turn s) (batchOf w turn s).unassigned.toList)
        (swept w plan turn s).2.events.toList (swept w plan turn s).1 ∧
      ∀ e ∈ (swept w plan turn s).2.events.toList, w.Gives e :=
  Program.ends_of_run_nil w .caller _ _

theorem mem_joinLines_of_mem_endLines {e : Event C E} (he : e ∈ endLines w plan turn s) :
    e ∈ joinLines turn.deferred := by
  unfold endLines at he
  cases hswept : (swept w plan turn s).1 with
  | ok a => rwa [hswept] at he
  | error fault =>
    rw [hswept] at he
    cases he

theorem origin?_of_endLines {e : Event C E} (he : e ∈ endLines w plan turn s) : e.origin? = none :=
  origin?_of_joinLines (mem_joinLines_of_mem_endLines he)

/-- Whether the tick returns or not, a task leaves what it leaves in the dispatch. -/
theorem historyOf_task (place : Nat) (region : RegionId) :
    historyOf (.task place region) (tick w true plan turn s).events.toList =
      historyOf (.task place region) (dispatched w plan turn s).2.2.toList := by
  rw [tick_regions.2, beforeJoin, historyOf_append, historyOf_append, historyOf_append,
    historyOf_nobody fun e => origin?_of_failureLines, historyOf_nobody fun e => origin?_of_endLines,
    historyOf_other (swept_ends w plan turn s).1.origin (by simp)]
  simp

/-- Whether the tick returns or not, the calling thread leaves what it leaves in the sweep. -/
theorem historyOf_caller :
    historyOf .caller (tick w true plan turn s).events.toList = (swept w plan turn s).2.events.toList := by
  have htasks : historyOf .caller (dispatched w plan turn s).2.2.toList = [] := by
    refine List.filter_eq_nil_iff.mpr fun e he => ?_
    obtain ⟨job, -, heq⟩ := (dispatched_serves w plan turn s).origins e he
    simp [heq, jobOrigin]
  rw [tick_regions.2, beforeJoin, historyOf_append, historyOf_append, historyOf_append, htasks,
    historyOf_nobody fun e => origin?_of_failureLines, historyOf_nobody fun e => origin?_of_endLines,
    historyOf_self (swept_ends w plan turn s).1.origin]
  simp

/-! ## Faults of the calling thread -/

/-- No call of the calling thread has faulted. -/
def CallerFaultless (events : List (Event C E)) : Prop := ∀ e ∈ historyOf .caller events, e.fault? = none

/-- If the sweep stops, the last call of the calling thread has faulted, and no call before it. -/
theorem historyOf_caller_of_error {fault : Fault} (h : (swept w plan turn s).1 = .error fault) :
    ∃ H c, historyOf .caller (tick w true plan turn s).events.toList = H ++ [.called .caller c (.error fault)] ∧
      ∀ e ∈ H, e.fault? = none := by
  have hends := (swept_ends w plan turn s).1
  rw [h] at hends
  obtain ⟨H, c, hH, hfree⟩ := hends.fault_last
  exact ⟨H, c, historyOf_caller.trans hH, hfree⟩

theorem callerFaultless_iff :
    CallerFaultless (tick w true plan turn s).events.toList ↔ (swept w plan turn s).1 = .ok () := by
  cases hswept : (swept w plan turn s).1 with
  | ok a =>
    have hends := (swept_ends w plan turn s).1
    rw [hswept] at hends
    refine iff_of_true (fun e he => hends.fault_free e ?_) rfl
    rwa [← historyOf_caller]
  | error fault =>
    obtain ⟨H, c, hH, -⟩ := historyOf_caller_of_error hswept
    refine iff_of_false (fun h => ?_) nofun
    have hlast := h (.called .caller c (.error fault)) (by rw [hH]; simp)
    cases hlast

/-! ## The log -/

theorem notice?_of_origin {e : Event C E} {o : Origin} (h : e.origin? = some o) : e.notice? = none := by
  rcases e with _ | _ | _ | _
  · rfl
  · rfl
  · cases h
  · rfl

theorem filterMap_notice?_failureLines (outcomes : List Outcome) :
    (failureLines outcomes : List (Event C E)).filterMap Event.notice? = outcomes.filterMap Outcome.notice? := by
  rw [failureLines, List.filterMap_map]
  exact List.filterMap_some

/-- The log of a tick: the failures that the tasks report, and that of the deferred work. -/
theorem notices_tick (w : World σ C E) (plan : Plan) (turn : Turn C) (s : σ) : notices (tick w true plan turn s).events =
    (dispatched w plan turn s).1.filterMap Outcome.notice? ++ (endLines w plan turn s).filterMap Event.notice? := by
  have htasks : (dispatched w plan turn s).2.2.toList.filterMap Event.notice? = [] :=
    List.filterMap_eq_nil_iff.mpr fun e he => by
      obtain ⟨job, -, heq⟩ := (dispatched_serves w plan turn s).origins e he
      exact notice?_of_origin heq
  have hsweep : (swept w plan turn s).2.events.toList.filterMap Event.notice? = [] :=
    List.filterMap_eq_nil_iff.mpr fun e he => notice?_of_origin ((swept_ends w plan turn s).1.origin e he)
  rw [notices, tick_regions.2, beforeJoin, List.filterMap_append, List.filterMap_append, List.filterMap_append,
    htasks, hsweep, filterMap_notice?_failureLines, List.nil_append, List.append_nil]

end Tick

end GridTick
