import GridTick.Proofs.Tick.ChunkCoverage
import GridTick.Proofs.Tick.EntityCoverage

/-!
# GridTick.Proofs.Tick.Completion — what can leave a tick, and what it leaves undone

The faults of region tasks end up in their reports, but nothing holds a fault of the calling thread.  A chunk whose
tick faults in a region is tried again in the sweep, and if it faults there too, that fault leaves the tick: the chunks
after it, the entities outside all regions and the deferred work are not reached.

* `sweep_ends`: where the sweep of the calling thread may stop.
* `tickedKeys_tick`, `tickedOnce_of_swept`: the chunk ticks of a tick, whether it returns or not.
* `Completed`, `CutShort`: the two ways for a tick to end.
* `tick_completion`: only a fault of the calling thread cuts a tick short.
* `World.refusing`: a world with a chunk that faults whenever it is ticked.
-/

namespace GridTick

variable {σ C E : Type}

/-! ## Where the sweep stops -/

/-- The sweep goes through all its chunks and may then stop at an entity, or it stops at a chunk. -/
theorem sweep_ends {o : Origin} {speed : UInt32} {chunks : List C} {entities : List E} {H : List (Event C E)}
    {r : Except Fault Unit} (h : Program.Ends o (sweep speed chunks entities) H r) :
    (∃ O, H = chunks.map (fun c => .called o (.tickChunk c speed) (.ok ())) ++ O ∧
        Program.Ends o (Program.offerAll entities) O r) ∨
      ∃ (done : List C) (c : C) (rest : List C) (fault : Fault), chunks = done ++ c :: rest ∧
        H = done.map (fun c => .called o (.tickChunk c speed) (.ok ())) ++
          [.called o (.tickChunk c speed) (.error fault)] ∧
        r = .error fault := by
  rw [sweep, Program.bind_eq] at h
  rcases h.bind_inv with ⟨_, H₁, O, rfl, h₁, h₂⟩ | ⟨fault, rfl, h₁⟩
  · rcases Program.tickAll_ends h₁ with ⟨rfl, -⟩ | ⟨_, _, _, _, -, -, hr⟩
    · exact .inl ⟨O, rfl, h₂⟩
    · cases hr
  · rcases Program.tickAll_ends h₁ with ⟨-, hr⟩ | ⟨done, c, rest, _, hchunks, hH, hr⟩
    · cases hr
    · exact .inr ⟨done, c, rest, _, hchunks, hH, hr⟩

/-- A sweep that returns has ticked its chunks in order. -/
theorem sweep_chunkTicks {o : Origin} {speed : UInt32} {chunks : List C} {entities : List E} {H : List (Event C E)}
    (h : Program.Ends o (sweep speed chunks entities) H (.ok ())) :
    H.filterMap Event.chunkTick? = chunks.map fun c => (o.lane, c, speed) := by
  rcases sweep_ends h with ⟨O, rfl, hoffers⟩ | ⟨_, _, _, _, -, -, hr⟩
  · have hO : O.filterMap Event.chunkTick? = [] :=
      List.filterMap_eq_nil_iff.mpr fun e he => chunkTick?_of_ofOffer ((Program.offerAll_ends hoffers).1 e he)
    rw [List.filterMap_append, hO, List.append_nil, List.filterMap_map]
    exact congrFun List.filterMap_eq_map chunks
  · cases hr

/-- The loaded chunks split where those left over split. -/
theorem leftover_split {w : World σ C E} {outcomes : List Outcome} {loaded done left : List C} {c : C}
    (h : leftover w outcomes loaded = done ++ c :: left) : ∃ seen rest, loaded = seen ++ c :: rest ∧
      leftover w outcomes seen = done ∧ w.keyOf c ∉ ticked outcomes := by
  obtain ⟨seen₁, l, rfl, rfl, hl⟩ := List.filter_eq_append_iff.mp h
  obtain ⟨seen₂, rest, rfl, hseen₂, -, rfl⟩ := List.filter_eq_cons_iff.mp hl
  have hc : c ∈ leftover w outcomes (seen₁ ++ (seen₂ ++ c :: rest)) := by
    rw [h]
    simp
  refine ⟨seen₁ ++ seen₂, rest, by rw [List.append_assoc], ?_, (mem_leftover.mp hc).2⟩
  have hnone : seen₂.filter (fun d => !(ticked outcomes).contains (w.keyOf d)) = [] :=
    List.filter_eq_nil_iff.mpr hseen₂
  rw [leftover, List.filter_append, hnone, List.append_nil]

/-! ## Chunk ticks, whether the tick returns or not -/

section Ticks

variable {w : World σ C E} {plan : Plan} {turn : Turn C} {s : σ}

theorem tickedKeys_nobody (w : World σ C E) {H : List (Event C E)} (h : ∀ e ∈ H, e.origin? = none) :
    tickedKeys w H = [] := by
  rw [tickedKeys, List.filterMap_eq_nil_iff.mpr fun e he => chunkTick?_of_nobody (h e he), List.map_nil]

theorem tickedKeys_tick : tickedKeys w (tick w true plan turn s).events.toList =
    tickedKeys w (dispatched w plan turn s).2.2.toList ++ tickedKeys w (swept w plan turn s).2.events.toList := by
  rw [tick_regions.2, beforeJoin, tickedKeys_append, tickedKeys_append, tickedKeys_append,
    tickedKeys_nobody w fun e => origin?_of_failureLines, tickedKeys_nobody w fun e => origin?_of_endLines,
    List.append_nil, List.append_nil]

theorem dispatched_tickedKeys_perm (w : World σ C E) (plan : Plan) (turn : Turn C) (s : σ) :
    ((jobs (batchOf w turn s).regions.toList).flatMap fun job =>
      tickedKeys w (historyOf (jobOrigin job) (dispatched w plan turn s).2.2.toList)).Perm
      (tickedKeys w (dispatched w plan turn s).2.2.toList) := by
  have horigins : ∀ e ∈ (dispatched w plan turn s).2.2.toList, ∀ o, e.origin? = some o →
      o ∈ (jobs (batchOf w turn s).regions.toList).map jobOrigin := by
    intro e he o ho
    obtain ⟨job, hjob, heq⟩ := (dispatched_serves w plan turn s).origins e he
    rw [heq] at ho
    exact Option.some.inj ho ▸ List.mem_map_of_mem hjob
  have hpick := perm_filterMap_histories (dispatched w plan turn s).2.2.toList
    (List.nodup_cons.mp (Batch.origins_nodup (batchOf w turn s))).2 horigins
    (p := fun e => e.chunkTick?.map fun t => w.keyOf t.2.1) fun e he => by rw [chunkTick?_of_nobody he, Option.map_none]
  simpa only [tickedKeys, List.map_filterMap, List.flatMap_map] using hpick

theorem dispatched_tickedKeys_nodup (hw : w.FindsByKey) :
    (tickedKeys w (dispatched w plan turn s).2.2.toList).Nodup :=
  (dispatched_tickedKeys_perm w plan turn s).nodup_iff.mp
    (tasks_tickedKeys_nodup hw (dispatched_serves w plan turn s).given (dispatched_report w plan turn s))

theorem mem_dispatched_tickedKeys (hw : w.FindsByKey) {k : Key} :
    k ∈ tickedKeys w (dispatched w plan turn s).2.2.toList ↔ k ∈ ticked (dispatched w plan turn s).1 := by
  have hserves := dispatched_serves w plan turn s
  rw [← (dispatched_tickedKeys_perm w plan turn s).mem_iff, List.mem_flatMap, mem_ticked]
  constructor
  · rintro ⟨job, hjob, hk⟩
    obtain ⟨o, ho, hjobserves⟩ := dispatched_report w plan turn s hjob
    exact ⟨o, ho, ((hjobserves.ticks hw hserves.given).2.2 k).mpr hk⟩
  · rintro ⟨o, ho, hk⟩
    obtain ⟨job, hjob, hjobserves⟩ := hserves.reports o ho
    exact ⟨job, hjob, ((hjobserves.ticks hw hserves.given).2.2 k).mp hk⟩

/-- Each of these chunks is ticked once, if look-ups find chunks by their keys and no two of the chunks have one key. -/
def TickedOnce (w : World σ C E) (chunks : List C) (events : List (Event C E)) : Prop :=
  w.FindsByKey → (chunks.map w.keyOf).Nodup → ∀ c ∈ chunks, (tickedKeys w events).count (w.keyOf c) = 1

/-- If the sweep has ticked all that the regions have left of some chunks, each of these has been ticked once. -/
theorem tickedOnce_of_swept {seen : List C} (hswept : tickedKeys w (swept w plan turn s).2.events.toList =
    (leftover w (dispatched w plan turn s).1 seen).map w.keyOf) :
    TickedOnce w seen (tick w true plan turn s).events.toList := by
  intro hw hnodup c hc
  rw [tickedKeys_tick, hswept]
  refine List.count_eq_one_of_mem ?_ ?_
  · refine List.Nodup.append (dispatched_tickedKeys_nodup hw) ((List.filter_sublist.map _).nodup hnodup) ?_
    intro k hdone hleft
    obtain ⟨d, hd, rfl⟩ := List.mem_map.mp hleft
    exact (mem_leftover.mp hd).2 ((mem_dispatched_tickedKeys hw).mp hdone)
  · by_cases hdone : w.keyOf c ∈ ticked (dispatched w plan turn s).1
    · exact List.mem_append_left _ ((mem_dispatched_tickedKeys hw).mpr hdone)
    · exact List.mem_append_right _ (List.mem_map_of_mem (mem_leftover.mpr ⟨hc, hdone⟩))

end Ticks

/-! ## The two ways to end -/

/-- A tick that has done everything: the loaded chunks are ticked, the entities outside all regions are offered their
ticks, and after all that the deferred work is joined. -/
structure Completed (w : World σ C E) (turn : Turn C) (batch : Batch E) (events : List (Event C E)) : Prop where
  ticked : TickedOnce w turn.loaded events
  unassigned : offered (historyOf .caller events) = batch.unassigned.toList
  joined : ∃ before, events = before ++ joinLines turn.deferred ∧ .joined ∉ before

/-- A tick that a fault of the calling thread has left. -/
inductive CutShort (w : World σ C E) (turn : Turn C) (batch : Batch E) (events : List (Event C E)) (fault : Fault) : Prop
  /-- The chunk `c` faulted in the sweep.  It has not been ticked, the calling thread ticks no chunk after it, and no
  entity outside the regions is offered a tick. -/
  | atChunk (seen : List C) (c : C) (rest : List C) (before : List (Event C E))
    (hloaded : turn.loaded = seen ++ c :: rest)
    (hlast : events = before ++ [.called .caller (.tickChunk c turn.settings.randomTickSpeed) (.error fault)])
    (hseen : TickedOnce w seen events)
    (hmissed : w.FindsByKey → (turn.loaded.map w.keyOf).Nodup → w.keyOf c ∉ tickedKeys w events ∧
      ∀ d ∈ rest, w.keyOf d ∉ tickedKeys w (historyOf .caller events))
    (hoffered : offered (historyOf .caller events) = [])
  /-- The contract of the entity `e` raised the fault.  The loaded chunks are ticked, but the entities after `e` are not
  offered their ticks. -/
  | atEntity (e : E) (rest : List E) (before H : List (Event C E))
    (hentities : batch.unassigned.toList = offered (historyOf .caller before) ++ e :: rest)
    (hlast : events = before ++ .marked .caller (.offered e) :: H)
    (hcontract : Program.Ends .caller (Program.contract e) H (.error fault))
    (hticked : TickedOnce w turn.loaded events)

section Completion

variable {w : World σ C E} {plan : Plan} {turn : Turn C} {s : σ}

theorem joined_notMem_beforeJoin : .joined ∉ beforeJoin w plan turn s := by
  intro hmem
  rcases List.mem_append.mp hmem with hmem | hswept
  · rcases List.mem_append.mp hmem with htasks | hlines
    · obtain ⟨_, -, heq⟩ := (dispatched_serves w plan turn s).origins _ htasks
      cases heq
    · obtain ⟨_, -, heq⟩ := List.mem_map.mp hlines
      cases heq
  · cases (swept_ends w plan turn s).1.origin _ hswept

theorem historyOf_caller_beforeSweep : historyOf .caller
    ((dispatched w plan turn s).2.2.toList ++ failureLines (dispatched w plan turn s).1) = [] := by
  refine List.filter_eq_nil_iff.mpr fun e he => ?_
  rcases List.mem_append.mp he with he | he
  · obtain ⟨job, -, heq⟩ := (dispatched_serves w plan turn s).origins e he
    simp [heq, jobOrigin]
  · simp [origin?_of_failureLines he]

/-- If the sweep returns, the tick has done everything. -/
theorem completed_of_ok (hok : (swept w plan turn s).1 = .ok ()) :
    Completed w turn (batchOf w turn s) (tick w true plan turn s).events.toList := by
  have hends := (swept_ends w plan turn s).1
  rw [hok] at hends
  refine ⟨tickedOnce_of_swept (sweep_tickedKeys w hends), ?_, beforeJoin w plan turn s, ?_, joined_notMem_beforeJoin⟩
  · rw [historyOf_caller]
    exact sweep_offered hends
  · rw [tick_regions.2, endLines, hok]

theorem events_of_error {fault : Fault} (herror : (swept w plan turn s).1 = .error fault) :
    (tick w true plan turn s).events.toList = beforeJoin w plan turn s := by
  rw [tick_regions.2, endLines, herror, List.append_nil]

theorem cutShort_atChunk {done rest : List C} {c : C} {fault : Fault}
    (herror : (swept w plan turn s).1 = .error fault) (hleft : leftOver w plan turn s = done ++ c :: rest)
    (hH : (swept w plan turn s).2.events.toList =
      done.map (fun c => .called .caller (.tickChunk c turn.settings.randomTickSpeed) (.ok ())) ++
        [.called .caller (.tickChunk c turn.settings.randomTickSpeed) (.error fault)]) :
    CutShort w turn (batchOf w turn s) (tick w true plan turn s).events.toList fault := by
  obtain ⟨seen, rest', hloaded, hseen, hc⟩ := leftover_split hleft
  have hswept : tickedKeys w (swept w plan turn s).2.events.toList =
      (leftover w (dispatched w plan turn s).1 seen).map w.keyOf := by
    rw [hH, tickedKeys_append, tickedKeys_ticks, hseen]
    exact List.append_nil _
  -- the keys that the sweep has ticked are those of chunks before `c`
  have hkeys : ∀ d ∈ c :: rest', (turn.loaded.map w.keyOf).Nodup →
      w.keyOf d ∉ tickedKeys w (swept w plan turn s).2.events.toList := by
    intro d hd hnodup hmem
    rw [hloaded, List.map_append] at hnodup
    rw [hswept] at hmem
    exact (List.nodup_append.mp hnodup).2.2 _ ((List.filter_sublist.map _).subset hmem) _ (List.mem_map_of_mem hd) rfl
  refine .atChunk seen c rest' ((dispatched w plan turn s).2.2.toList ++ failureLines (dispatched w plan turn s).1 ++
    done.map fun c => .called .caller (.tickChunk c turn.settings.randomTickSpeed) (.ok ())) hloaded ?_
    (tickedOnce_of_swept hswept) (fun hw hnodup => ⟨?_, fun d hd => ?_⟩) ?_
  · rw [events_of_error herror, beforeJoin, hH, List.append_assoc _ (List.map _ _)]
  · rw [tickedKeys_tick, List.mem_append, mem_dispatched_tickedKeys hw]
    exact not_or.mpr ⟨hc, hkeys c (List.mem_cons_self ..) hnodup⟩
  · rw [historyOf_caller]
    exact hkeys d (List.mem_cons_of_mem _ hd) hnodup
  · rw [historyOf_caller, hH]
    refine offered_eq_nil fun e he => ?_
    rcases List.mem_append.mp he with he | he
    · obtain ⟨_, -, rfl⟩ := List.mem_map.mp he
      rfl
    · obtain rfl := List.mem_singleton.mp he
      rfl

theorem cutShort_atEntity {H₁ H₂ : List (Event C E)} {e : E} {rest : List E} {fault : Fault}
    (herror : (swept w plan turn s).1 = .error fault)
    (hentities : (batchOf w turn s).unassigned.toList = offered H₁ ++ e :: rest)
    (hcontract : Program.Ends .caller (Program.contract e) H₂ (.error fault))
    (hoffers : ∀ ev ∈ H₁ ++ .marked .caller (.offered e) :: H₂, ev.OfOffer)
    (hH : (swept w plan turn s).2.events.toList = (leftOver w plan turn s).map
      (fun c => .called .caller (.tickChunk c turn.settings.randomTickSpeed) (.ok ())) ++
        (H₁ ++ .marked .caller (.offered e) :: H₂)) :
    CutShort w turn (batchOf w turn s) (tick w true plan turn s).events.toList fault := by
  let ticks : List (Event C E) := (leftOver w plan turn s).map
    fun c => .called .caller (.tickChunk c turn.settings.randomTickSpeed) (.ok ())
  -- only the sweep is the calling thread's, so what it has offered before `e` is what the contracts before it offer
  have hbefore : historyOf .caller ((dispatched w plan turn s).2.2.toList ++
      failureLines (dispatched w plan turn s).1 ++ (ticks ++ H₁)) = ticks ++ H₁ := by
    rw [historyOf_append, historyOf_caller_beforeSweep, List.nil_append]
    refine historyOf_self fun ev hev => (swept_ends w plan turn s).1.origin ev ?_
    rw [hH, ← List.append_assoc]
    exact List.mem_append_left _ hev
  have hticks : offered ticks = [] := offered_eq_nil fun ev hev => by
    obtain ⟨_, -, rfl⟩ := List.mem_map.mp hev
    rfl
  have hkeys : tickedKeys w (H₁ ++ .marked .caller (.offered e) :: H₂) = [] := by
    rw [tickedKeys, List.filterMap_eq_nil_iff.mpr fun ev hev => chunkTick?_of_ofOffer (hoffers ev hev), List.map_nil]
  refine .atEntity e rest ((dispatched w plan turn s).2.2.toList ++ failureLines (dispatched w plan turn s).1 ++
    (ticks ++ H₁)) H₂ ?_ ?_ hcontract (tickedOnce_of_swept ?_)
  · rw [hbefore, offered_append, hticks, List.nil_append]
    exact hentities
  · rw [events_of_error herror, beforeJoin, hH]
    simp only [ticks, List.append_assoc]
  · rw [hH, tickedKeys_append, hkeys, tickedKeys_ticks, List.append_nil]
    rfl

/-- If the sweep stops, it cuts the tick short where it stops. -/
theorem cutShort_of_error {fault : Fault} (herror : (swept w plan turn s).1 = .error fault) :
    CutShort w turn (batchOf w turn s) (tick w true plan turn s).events.toList fault := by
  have hends := (swept_ends w plan turn s).1
  rw [herror] at hends
  rcases sweep_ends hends with ⟨O, hH, hoffers⟩ | ⟨done, c, rest, _, hleft, hH, ⟨⟩⟩
  · obtain ⟨hof, ⟨hr, -⟩ | ⟨H₁, e, rest, H₂, _, ⟨⟩, hentities, rfl, hcontract⟩⟩ := Program.offerAll_ends hoffers
    · cases hr
    · exact cutShort_atEntity herror hentities hcontract hof hH
  · exact cutShort_atChunk herror hleft hH

/-- A tick with regions does everything if no call of the calling thread faults, whatever faults in the regions.  A
fault of the calling thread leaves the tick and cuts it short; then the deferred work is not joined. -/
theorem tick_completion (w : World σ C E) (plan : Plan) (turn : Turn C) (s : σ) :
    let result := tick w true plan turn s
    let events := result.events.toList
    (CallerFaultless events →
      (∃ summary, result.summary = .ok summary) ∧ Completed w turn (batchOf w turn s) events) ∧
    ∀ e ∈ historyOf .caller events, ∀ fault, e.fault? = some fault →
      result.summary = .error fault ∧ CutShort w turn (batchOf w turn s) events fault ∧ .joined ∉ events := by
  intro result events
  have hsummary : result.summary = (swept w plan turn s).1.map fun _ => Summary.ofPhases w plan turn s := tick_regions.1
  have hfaultless : CallerFaultless events ↔ (swept w plan turn s).1 = .ok () := callerFaultless_iff
  refine ⟨fun h => ?_, fun e he fault hfault => ?_⟩
  · have hswept := hfaultless.mp h
    rw [hsummary, hswept]
    exact ⟨⟨_, rfl⟩, completed_of_ok hswept⟩
  · cases hswept : (swept w plan turn s).1 with
    | ok a =>
      rw [hfaultless.mpr hswept e he] at hfault
      cases hfault
    | error fault' =>
      -- only the last event of the calling thread has a fault
      obtain ⟨H, c, hH, hfree⟩ := historyOf_caller_of_error hswept
      rw [show historyOf .caller events = _ from hH] at he
      rcases List.mem_append.mp he with he | he
      · rw [hfree e he] at hfault
        cases hfault
      · obtain rfl := List.mem_singleton.mp he
        cases hfault
        refine ⟨by rw [hsummary, hswept]; rfl, cutShort_of_error hswept, ?_⟩
        rw [show events = beforeJoin w plan turn s from events_of_error hswept]
        exact joined_notMem_beforeJoin

end Completion

/-- Never stumbles, but one chunk faults whenever it is ticked. -/
def World.refusing (k : Key) : World Nat Key Nat :=
  { World.stumbling 0 with
    answer := fun c s => if c = .tickChunk k 3 then (.error (.text "refused"), s) else (World.stumbling 0).answer c (s + 1) }

theorem tick_refusing :
    let w := World.refusing (Cell.key ⟨0, 0⟩)
    let result := tick w true .inOrder (.alone [Cell.key ⟨0, 0⟩, Cell.key ⟨40, 0⟩]) 0
    let events := result.events.toList
    result.summary = .error (.text "refused") ∧ Cell.key ⟨40, 0⟩ ∉ tickedKeys w events ∧
      offered (historyOf .caller events) = [] ∧
        (historyOf .caller events).any fun e => e.fault? = some (.text "refused") := by
  intro w result events
  have hdispatch := @dispatch_singleton _ _ _ w .inOrder rfl 3 .alone (by decide +kernel) 0 #[]
  simp only [events, result, w, tick, tickRegions, Turn.alone, World.refusing, World.stumbling,
    if_true] at hdispatch ⊢
  simp only [buildBatch_alone, hdispatch]
  decide +kernel

/-- The region stumbles over its third chunk, and the sweep over nothing: everything is done.  A chunk that faults in
its region and again in the sweep cuts the tick short. -/
theorem tick_completion_stumbling_refusing :
    let w := World.stumbling 11
    let turn := Turn.alone [Cell.key ⟨0, 0⟩, Cell.key ⟨-1, 0⟩, Cell.key ⟨40, 0⟩]
    let events := (tick w true .inOrder turn 0).events.toList
    let w' := World.refusing (Cell.key ⟨0, 0⟩)
    let turn' := Turn.alone [Cell.key ⟨0, 0⟩, Cell.key ⟨40, 0⟩]
    let events' := (tick w' true .inOrder turn' 0).events.toList
    ((events.filterMap Event.fault? = [.text "stumbled"] ∧ CallerFaultless events) ∧
        (∃ summary, (tick w true .inOrder turn 0).summary = .ok summary) ∧
          Completed w turn (batchOf w turn 0) events) ∧
      (∃ e ∈ historyOf .caller events', e.fault? = some (.text "refused")) ∧
        (tick w' true .inOrder turn' 0).summary = .error (.text "refused") ∧
          CutShort w' turn' (batchOf w' turn' 0) events' (.text "refused") ∧ .joined ∉ events' := by
  intro w turn events w' turn' events'
  have hfaults : events.filterMap Event.fault? = [.text "stumbled"] ∧
      (historyOf .caller events).all fun e => e.fault?.isNone := by
    have hdispatch := dispatch_alone 11
    simp only [events, w, turn, tick, tickRegions, Turn.alone, World.stumbling, if_true] at hdispatch ⊢
    simp only [buildBatch_alone, hdispatch]
    decide +kernel
  have hcaller : CallerFaultless events := fun e he =>
    Option.isNone_iff_eq_none.mp (List.all_eq_true.mp hfaults.2 e he)
  obtain ⟨e, he, hfault⟩ := List.any_eq_true.mp tick_refusing.2.2.2
  have hfault : e.fault? = some (.text "refused") := of_decide_eq_true hfault
  exact ⟨⟨⟨hfaults.1, hcaller⟩, (tick_completion w .inOrder turn 0).1 hcaller⟩, ⟨e, he, hfault⟩,
    (tick_completion w' .inOrder turn' 0).2 e he _ hfault⟩

/-- A chunk that faults in its region and again in the sweep: the tick does not return, the chunk after it is not
ticked, the entity outside the region is not offered a tick, and nothing is joined. -/
theorem tick_left_by_refusal :
    let w := World.refusing (Cell.key ⟨0, 0⟩)
    let turn := Turn.alone [Cell.key ⟨0, 0⟩, Cell.key ⟨40, 0⟩]
    let result := tick w true .inOrder turn 0
    let events := result.events.toList
    result.summary = .error (.text "refused") ∧ Cell.key ⟨40, 0⟩ ∉ tickedKeys w events ∧
      (batchOf w turn 0).unassigned.toList = [9] ∧ offered (historyOf .caller events) = [] ∧ .joined ∉ events := by
  intro w turn result events
  have hunassigned : (batchOf w turn 0).unassigned.toList = [9] := by
    simp only [batchOf, w, turn, World.refusing, World.stumbling, Turn.alone, buildBatch_alone]
  obtain ⟨hresult, hticked, hoffered, -⟩ := tick_refusing
  refine ⟨hresult, hticked, hunassigned, hoffered, ?_⟩
  have hsummary : (swept w .inOrder turn 0).1.map (fun _ => Summary.ofPhases w .inOrder turn 0) =
      .error (.text "refused") := tick_regions.1.symm.trans hresult
  cases hswept : (swept w .inOrder turn 0).1 with
  | ok a =>
    rw [hswept] at hsummary
    cases hsummary
  | error fault =>
    rw [show events = beforeJoin w .inOrder turn 0 from events_of_error hswept]
    exact joined_notMem_beforeJoin

end GridTick
