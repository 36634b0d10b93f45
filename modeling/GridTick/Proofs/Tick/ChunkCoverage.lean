import GridTick.Proofs.Tick.Batch
import GridTick.Proofs.Tick.Histories

/-!
# GridTick.Proofs.Tick.ChunkCoverage — every loaded chunk is ticked once

A region task may fault at any look-up, chunk or entity.  The keys it has noted are those it has ticked, so the chunks
left to the calling thread are those that no region has ticked.

* `World.FindsByKey`: what is asked of the world.
* `Outcome.Serves.done`, `Outcome.Serves.ticks`: the chunk ticks of one region, and its report.
* `tasks_tickedKeys_nodup`: no key is ticked twice by the regions.
* `Served.tickedKeys_nodup`: no key is ticked twice in a tick with regions.
* `tick_chunkCoverage`: the coverage, with regions or without.
-/

namespace GridTick

variable {σ C E : Type}

/-- Looking up a key finds chunks of that key only. -/
def World.FindsByKey (w : World σ C E) : Prop :=
  ∀ k s c, (w.answer (.lookup k) s).1 = .ok (some c) → w.keyOf c = k

theorem tickedKeys_append (w : World σ C E) (H₁ H₂ : List (Event C E)) :
    tickedKeys w (H₁ ++ H₂) = tickedKeys w H₁ ++ tickedKeys w H₂ := by
  simp [tickedKeys]

theorem mem_hits {pairs : List (Key × Option C)} {k : Key} {c : C} : (k, c) ∈ hits pairs ↔ (k, some c) ∈ pairs := by
  simp [hits, List.mem_filterMap]

theorem hits_keys_sublist (pairs : List (Key × Option C)) :
    ((hits pairs).map Prod.fst).Sublist (pairs.map Prod.fst) := by
  induction pairs with
  | nil => exact .slnil
  | cons p rest ih =>
    obtain ⟨k, _ | c⟩ := p
    · exact ih.cons k
    · exact ih.cons_cons k

theorem mem_ticked {outcomes : List Outcome} {k : Key} : k ∈ ticked outcomes ↔ ∃ o ∈ outcomes, k ∈ o.chunks := by
  have hfold : ∀ keys : KeySet, k ∈ outcomes.foldl (fun keys o => keys.union o.chunks) keys ↔
      k ∈ keys ∨ ∃ o ∈ outcomes, k ∈ o.chunks := by
    induction outcomes with
    | nil => simp
    | cons o rest ih =>
      intro keys
      rw [List.foldl_cons, ih, KeySet.mem_union, List.exists_mem_cons_iff, or_assoc]
  rw [ticked, hfold]
  simp

theorem leftover_eq_filter {w : World σ C E} {outcomes : List Outcome} {loaded : List C} :
    leftover w outcomes loaded = loaded.filter fun c => w.keyOf c ∉ ticked outcomes := by
  refine List.filter_congr fun c _ => Bool.eq_iff_iff.mpr ?_
  rw [Bool.not_eq_true', ← Bool.not_eq_true, decide_eq_true_iff]
  rfl

theorem mem_leftover {w : World σ C E} {outcomes : List Outcome} {loaded : List C} {c : C} :
    c ∈ leftover w outcomes loaded ↔ c ∈ loaded ∧ w.keyOf c ∉ ticked outcomes := by
  rw [leftover_eq_filter, List.mem_filter, decide_eq_true_iff]

/-! ## One region -/

section Region

variable {w : World σ C E} {plan : Plan} {speed : UInt32} {events : List (Event C E)} {job : Region E × Nat}
  {o : Outcome} {cellOf : E → Cell} {tracked : List E} {agents : List Cell} {view : UInt32}

/-- The chunks that the task of a region has ticked were found under distinct keys of the region, and these are the keys
that it reports. -/
theorem Outcome.Serves.done (h : o.Serves plan speed events job) : ∃ done : List (Key × C),
    (done.map Prod.fst).Nodup ∧ (∀ k ∈ done.map Prod.fst, k ∈ job.1.chunks) ∧
      (∀ p ∈ done, .called (jobOrigin job) (.lookup p.1) (.ok (some p.2)) ∈ events) ∧
      (historyOf (jobOrigin job) events).filterMap Event.chunkTick? =
        done.map (fun p => ((jobOrigin job).lane, p.2, speed)) ∧
      ∀ k, k ∈ o.chunks ↔ k ∈ done.map Prod.fst := by
  obtain ⟨pairs, done, hdone, hkeys, hlooked, hticks, hrecorded⟩ := (Program.regionTask_ends h.ends).ticks
  have hsub : (done.map Prod.fst).Sublist (plan.enumerate job.1.id job.1.chunks) :=
    ((hdone.sublist.map _).trans (hits_keys_sublist pairs)).trans hkeys.sublist
  have hperm := plan.enumerate_perm job.1.id job.1.chunks
  refine ⟨done, hsub.nodup (hperm.nodup_iff.mpr (KeySet.nodup_toList _)), fun k hk => ?_, ?_, hticks, fun k => ?_⟩
  · exact KeySet.mem_toList.mp (hperm.subset (hsub.subset hk))
  · rintro ⟨k, c⟩ hp
    exact List.mem_of_mem_filter (hlooked _ (mem_hits.mp (hdone.subset hp)))
  · rw [h.chunks, hrecorded]

/-- The keys that a region ticks are distinct keys of the region under which a chunk was found; its report has just
these. -/
theorem Outcome.Serves.ticks (hw : w.FindsByKey) (hgiven : ∀ e ∈ events, w.Gives e)
    (h : o.Serves plan speed events job) :
    (tickedKeys w (historyOf (jobOrigin job) events)).Nodup ∧
      (∀ k ∈ tickedKeys w (historyOf (jobOrigin job) events),
        k ∈ job.1.chunks ∧ ∃ c, .called (jobOrigin job) (.lookup k) (.ok (some c)) ∈ events) ∧
      ∀ k, k ∈ o.chunks ↔ k ∈ tickedKeys w (historyOf (jobOrigin job) events) := by
  obtain ⟨done, hnodup, hchunks, hfound, hticks, hreported⟩ := h.done
  -- what was looked up under a key has that key
  have hticked : tickedKeys w (historyOf (jobOrigin job) events) = done.map Prod.fst := by
    rw [tickedKeys, hticks, List.map_map]
    refine List.map_congr_left fun p hp => ?_
    obtain ⟨s, hs⟩ := hgiven _ (hfound p hp)
    exact hw p.1 s p.2 hs
  rw [hticked]
  refine ⟨hnodup, fun k hk => ⟨hchunks k hk, ?_⟩, hreported⟩
  obtain ⟨p, hp, rfl⟩ := List.mem_map.mp hk
  exact ⟨p.2, hfound p hp⟩

/-- If every region is reported, no key is ticked twice by the regions. -/
theorem tasks_tickedKeys_nodup {outcomes : List Outcome} (hw : w.FindsByKey) (hgiven : ∀ e ∈ events, w.Gives e)
    (hreport : ∀ {job}, job ∈ jobs (buildBatch cellOf tracked agents view).regions.toList →
      ∃ o ∈ outcomes, o.Serves plan speed events job) :
    ((jobs (buildBatch cellOf tracked agents view).regions.toList).flatMap fun job =>
      tickedKeys w (historyOf (jobOrigin job) events)).Nodup := by
  refine List.nodup_flatMap.mpr ⟨fun job hjob => ?_, ?_⟩
  · obtain ⟨_, -, hserves⟩ := hreport hjob
    exact (hserves.ticks hw hgiven).1
  · refine (jobs_nodup _).of_map.pairwise_of_forall_ne fun job hjob job' hjob' hne k hk hk' => ?_
    obtain ⟨_, -, hserves⟩ := hreport hjob
    obtain ⟨_, -, hserves'⟩ := hreport hjob'
    have hplaces : job.2 ≠ job'.2 := fun h => hne (List.inj_on_of_nodup_map (jobs_nodup _) hjob hjob' h)
    exact buildBatch_disjoint (mem_jobs_regions.mp hjob).1 (mem_jobs_regions.mp hjob').1 hplaces
      ((hserves.ticks hw hgiven).2.1 k hk).1 ((hserves'.ticks hw hgiven).2.1 k hk').1

end Region

/-! ## The calling thread -/

theorem tickedKeys_ticks (w : World σ C E) (o : Origin) (speed : UInt32) (chunks : List C) :
    tickedKeys w (chunks.map fun c => .called o (.tickChunk c speed) (.ok ())) = chunks.map w.keyOf := by
  rw [tickedKeys, List.filterMap_map, List.map_filterMap]
  exact congrFun List.filterMap_eq_map chunks

theorem tickAll_tickedKeys (w : World σ C E) {speed : UInt32} {chunks : List C} {H : List (Event C E)}
    (h : Program.Ends .caller (Program.tickAll speed chunks) H (.ok ())) : tickedKeys w H = chunks.map w.keyOf := by
  rcases Program.tickAll_ends h with ⟨rfl, -⟩ | ⟨_, _, _, _, -, -, hr⟩
  · exact tickedKeys_ticks w _ speed chunks
  · cases hr

theorem offerAll_tickedKeys (w : World σ C E) {o : Origin} {entities : List E} {H : List (Event C E)}
    {r : Except Fault Unit} (h : Program.Ends o (Program.offerAll entities) H r) : tickedKeys w H = [] := by
  have hnone : H.filterMap Event.chunkTick? = [] :=
    List.filterMap_eq_nil_iff.mpr fun e he => chunkTick?_of_ofOffer ((Program.offerAll_ends h).1 e he)
  rw [tickedKeys, hnone, List.map_nil]

theorem sweep_tickedKeys (w : World σ C E) {speed : UInt32} {chunks : List C} {entities : List E}
    {H : List (Event C E)} (h : Program.Ends .caller (sweep speed chunks entities) H (.ok ())) :
    tickedKeys w H = chunks.map w.keyOf := by
  rw [sweep, Program.bind_eq] at h
  rcases h.bind_inv with ⟨_, H₁, H₂, rfl, h₁, h₂⟩ | ⟨_, hr, -⟩
  · rw [tickedKeys_append, tickAll_tickedKeys w h₁, offerAll_tickedKeys w h₂, List.append_nil]
  · cases hr

/-! ## A tick with regions -/

section Tick

variable {w : World σ C E} {plan : Plan} {speed : UInt32} {loaded : List C} {outcomes : List Outcome}
  {events : List (Event C E)} {cellOf : E → Cell} {tracked : List E} {agents : List Cell} {view : UInt32}

/-- What a region has ticked is not left to the calling thread. -/
theorem Served.not_mem_caller (hw : w.FindsByKey) {batch : Batch E}
    (h : Served w plan speed loaded batch outcomes events) {job : Region E × Nat}
    (hjob : job ∈ jobs batch.regions.toList) {k : Key} (hk : k ∈ tickedKeys w (historyOf (jobOrigin job) events)) :
    k ∉ tickedKeys w (historyOf .caller events) := by
  obtain ⟨r, hr, hserves⟩ := h.report hjob
  have hdone : k ∈ ticked outcomes := mem_ticked.mpr ⟨r, hr, ((hserves.ticks hw h.given).2.2 k).mpr hk⟩
  intro hleft
  rw [sweep_tickedKeys w h.caller] at hleft
  obtain ⟨c, hc, rfl⟩ := List.mem_map.mp hleft
  exact (mem_leftover.mp hc).2 hdone

theorem Served.tickedKeys_perm (w : World σ C E) {batch : Batch E}
    (h : Served w plan speed loaded batch outcomes events) :
    (batch.origins.flatMap fun o => tickedKeys w (historyOf o events)).Perm (tickedKeys w events) := by
  have hpick := perm_filterMap_histories events (Batch.origins_nodup batch) h.origins
    (p := fun e => e.chunkTick?.map fun t => w.keyOf t.2.1) fun e he => by rw [chunkTick?_of_nobody he, Option.map_none]
  simpa only [tickedKeys, List.map_filterMap] using hpick

theorem Served.tickedKeys_nodup (hw : w.FindsByKey) (hloaded : (loaded.map w.keyOf).Nodup)
    (h : Served w plan speed loaded (buildBatch cellOf tracked agents view) outcomes events) :
    (tickedKeys w events).Nodup := by
  refine (h.tickedKeys_perm w).nodup_iff.mp ?_
  rw [Batch.origins, List.flatMap_cons, List.flatMap_map]
  refine List.Nodup.append ?_ ?_ fun k hcaller htasks => ?_
  · rw [sweep_tickedKeys w h.caller]
    exact (List.filter_sublist.map _).nodup hloaded
  · exact tasks_tickedKeys_nodup hw h.given h.report
  · obtain ⟨job, hjob, hk⟩ := List.mem_flatMap.mp htasks
    exact h.not_mem_caller hw hjob hk hcaller

/-- A loaded chunk that no region has ticked is left to the calling thread. -/
theorem Served.mem_tickedKeys (hw : w.FindsByKey) {batch : Batch E}
    (h : Served w plan speed loaded batch outcomes events) {c : C} (hc : c ∈ loaded) :
    w.keyOf c ∈ tickedKeys w events := by
  refine (h.tickedKeys_perm w).subset (List.mem_flatMap.mpr ?_)
  by_cases hdone : w.keyOf c ∈ ticked outcomes
  · obtain ⟨r, hr, hk⟩ := mem_ticked.mp hdone
    obtain ⟨job, hjob, hserves⟩ := h.reports r hr
    exact ⟨_, List.mem_cons_of_mem _ (List.mem_map_of_mem hjob), ((hserves.ticks hw h.given).2.2 _).mp hk⟩
  · refine ⟨.caller, List.mem_cons_self .., ?_⟩
    rw [sweep_tickedKeys w h.caller]
    exact List.mem_map_of_mem (mem_leftover.mpr ⟨hc, hdone⟩)

/-- A key that is ticked but not loaded was looked up by the task of a region, and an agent sees it. -/
theorem Served.of_not_loaded (hw : w.FindsByKey)
    (h : Served w plan speed loaded (buildBatch cellOf tracked agents view) outcomes events) {k : Key}
    (hk : k ∉ loaded.map w.keyOf) (hmem : k ∈ tickedKeys w events) :
    (∃ a ∈ agents, k ∈ (Window.mk a view).keys) ∧
      ∃ place id c, .called (.task place id) (.lookup k) (.ok (some c)) ∈ events := by
  obtain ⟨o, ho, hko⟩ := List.mem_flatMap.mp ((h.tickedKeys_perm w).symm.subset hmem)
  rcases Batch.mem_origins ho with rfl | ⟨i, r, hr, hjob, rfl⟩
  · rw [sweep_tickedKeys w h.caller] at hko
    exact absurd ((List.filter_sublist.map _).subset hko) hk
  · obtain ⟨_, -, hserves⟩ := h.report hjob
    obtain ⟨hchunk, c, hlook⟩ := (hserves.ticks hw h.given).2.1 k hko
    exact ⟨buildBatch_seen hr hchunk, i, r.id, c, hlook⟩

end Tick

/-- Whatever faults, a tick that returns has ticked every loaded chunk exactly once, on a region task or on the calling
thread, and any other key at most once, and only if an agent sees it and a chunk was found for it. -/
theorem tick_chunkCoverage (w : World σ C E) (hw : w.FindsByKey) (enable : Bool) (plan : Plan) (turn : Turn C)
    (hloaded : (turn.loaded.map w.keyOf).Nodup) (s : σ) (summary : Summary)
    (h : (tick w enable plan turn s).summary = .ok summary) :
    let events := (tick w enable plan turn s).events.toList
    (∀ c ∈ turn.loaded, (tickedKeys w events).count (w.keyOf c) = 1) ∧
      ∀ k ∉ turn.loaded.map w.keyOf, (tickedKeys w events).count k ≤ 1 ∧
        (k ∈ tickedKeys w events →
          (∃ a ∈ turn.agents, k ∈ (Window.mk a turn.settings.viewDistance).keys) ∧
            ∃ place id c, .called (.task place id) (.lookup k) (.ok (some c)) ∈ events) := by
  intro events
  cases enable with
  | true =>
    have hserved := tick_served h
    have hnodup := hserved.tickedKeys_nodup hw hloaded
    refine ⟨fun c hc => ?_, fun k hk => ⟨List.nodup_iff_count_le_one.mp hnodup k, hserved.of_not_loaded hw hk⟩⟩
    exact List.count_eq_one_of_mem hnodup (hserved.mem_tickedKeys hw hc)
  | false =>
    obtain ⟨H₁, H₂, lines, hevents, h₁, h₂, hnobody⟩ := tick_sequential h
    have hlines : tickedKeys w lines = [] := by
      rw [tickedKeys, List.filterMap_eq_nil_iff.mpr fun e he => chunkTick?_of_nobody (hnobody e he), List.map_nil]
    have hticked : tickedKeys w events = turn.loaded.map w.keyOf := by
      rw [show events = H₁ ++ H₂ ++ lines from hevents, tickedKeys_append, tickedKeys_append, hlines,
        tickAll_tickedKeys w h₁, offerAll_tickedKeys w h₂, List.append_nil, List.append_nil]
    rw [hticked]
    refine ⟨fun c hc => ?_, fun k hk => ⟨List.nodup_iff_count_le_one.mp hloaded k, fun h => absurd h hk⟩⟩
    exact List.count_eq_one_of_mem hloaded (List.mem_map_of_mem hc)

theorem stumbling_findsByKey (n : Nat) : (World.stumbling n).FindsByKey := by
  intro k s c h
  by_cases hs : s = n
  · simp [World.stumbling, hs] at h
  · have hfound : k = c := by simpa [World.stumbling, hs] using h
    exact hfound.symm

/-- The region stumbles over its third chunk; the calling thread ticks that chunk and one that no agent sees. -/
theorem tick_chunkCoverage_stumbling :
    let turn := Turn.alone [Cell.key ⟨0, 0⟩, Cell.key ⟨-1, 0⟩, Cell.key ⟨40, 0⟩]
    let result := tick (.stumbling 11) true .inOrder turn 0
    result.summary = .ok ⟨1, 1, 2, 2, 0, 2, 1⟩ ∧
      ∀ k ∈ turn.loaded, (tickedKeys (.stumbling 11) result.events.toList).count k = 1 := by
  intro turn result
  have h : result.summary = .ok ⟨1, 1, 2, 2, 0, 2, 1⟩ := by
    have hdispatch := dispatch_alone 11
    simp only [result, turn, tick, tickRegions, Turn.alone, World.stumbling, if_true] at hdispatch ⊢
    simp only [buildBatch_alone, hdispatch]
    decide +kernel
  exact ⟨h, (tick_chunkCoverage _ (stumbling_findsByKey 11) true .inOrder turn (by decide) 0 _ h).1⟩

end GridTick
