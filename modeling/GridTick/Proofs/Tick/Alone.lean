import GridTick.Proofs.Tick.Footprint
import GridTick.Proofs.Tick.Histories

/-!
# GridTick.Proofs.Tick.Alone — tasks that share no state run as if each were alone

If the parts of a batch use different parts of the state, the turns of one task change nothing for another.  Then
however the turns fall, each task leaves the history that it leaves when it runs alone from the state before the
dispatch.

* `Separated`: parts of a batch that share no state.
* `alone`: the task of a region run by itself.
* `OnTrack`: a task that comes to the same end as the one that runs alone; `OnTrack.frame`, `OnTrack.step` keep it.
* `Pool.Apart`: the same of a whole pool; `Pool.Apart.turn` keeps it.
* `dispatched_alone`: the histories and the state that a dispatch leaves.
* `World.sideBySide`: a world whose parts share no state.
-/

namespace GridTick

variable {σ τ C E : Type}

/-- The parts of a batch share no state.  What a call for a part answers, and what it leaves in the view of that part,
depends on this view alone; it leaves the views of the other parts as they are. -/
structure Separated (w : World σ C E) (batch : Batch E) (view : Option Nat → σ → τ) : Prop where
  reads : ∀ p c, w.AsksFor batch p c → ∀ s s', view p s = view p s' →
    (w.answer c s).1 = (w.answer c s').1 ∧ view p (w.answer c s).2 = view p (w.answer c s').2
  writes : ∀ p c, w.AsksFor batch p c → ∀ q, q ≠ p → ∀ s, view q (w.answer c s).2 = view q s

/-- The task of a region, run by itself from a state. -/
def alone (w : World σ C E) (plan : Plan) (speed : UInt32) (s : σ) (job : Region E × Nat) :
    Except Fault Unit × Trail σ C E :=
  (jobProgram plan speed job).run w (jobOrigin job) ⟨s, ∅, #[]⟩

/-- A task from a stage on to its end. -/
def Stage.finish (w : World σ C E) (o : Origin) : Stage C E → Trail σ C E → Except Fault Unit × Trail σ C E
  | .running p, trail => p.run w o trail
  | .ended fault, trail => (endOf fault, trail)

/-- What a task may still ask is of a kind. -/
def Stage.Asks (w : World σ C E) (P : Call C E → Prop) : Stage C E → Prop
  | .running p => p.Asks w P fun _ => True
  | .ended _ => True

theorem jobProgram_asks (w : World σ C E) (plan : Plan) (speed : UInt32) {batch : Batch E} {job : Region E × Nat}
    (hjob : job ∈ jobs batch.regions.toList) :
    (jobProgram plan speed job).Asks w (w.AsksFor batch (some job.2)) fun _ => True := by
  have hr : batch.regions[job.2]? = some job.1 := (mem_jobs_regions.mp hjob).1
  have hkeys : ∀ k ∈ plan.enumerate job.1.id job.1.chunks, k ∈ job.1.chunks := fun k hk =>
    KeySet.mem_toList.mp ((plan.enumerate_perm job.1.id job.1.chunks).subset hk)
  refine Program.regionTask_asks (fun k hk => .lookup hr (hkeys k hk)) ?_ fun e he c hc => ?_
  · rintro ⟨k, c⟩ ⟨hk, s, hc⟩
    exact .tickFound hr (hkeys k hk) hc
  · exact .entity hr (Array.mem_toList_iff.mp he) hc

section OnTrack

variable (w : World σ C E) (batch : Batch E) (view : Option Nat → σ → τ) (plan : Plan) (speed : UInt32) (s₀ : σ)

/-- From this stage on, and from this state, the task of a region ends as it does when it runs alone from `s₀`, with the
same history and the same view. -/
structure OnTrack (s : σ) (events : List (Event C E)) (job : Region E × Nat) (stage : Stage C E) (recorded : KeySet) :
    Prop where
  asks : stage.Asks w (w.AsksFor batch (some job.2))
  same : SameRun (fun a b => view (some job.2) a = view (some job.2) b)
    (stage.finish w (jobOrigin job) ⟨s, recorded, (historyOf (jobOrigin job) events).toArray⟩)
    (alone w plan speed s₀ job)

end OnTrack

section Steps

variable {w : World σ C E} {batch : Batch E} {view : Option Nat → σ → τ} {plan : Plan} {speed : UInt32} {s₀ s s' : σ}
  {events H : List (Event C E)} {job : Region E × Nat} {stage : Stage C E} {recorded : KeySet} {o : Origin}

/-- A task stays on track when others act and leave its view as it is. -/
theorem OnTrack.frame (hsep : Separated w batch view)
    (h : OnTrack w batch view plan speed s₀ s events job stage recorded)
    (hview : view (some job.2) s' = view (some job.2) s) (hH : ∀ e ∈ H, e.origin? = some o) (hne : jobOrigin job ≠ o) :
    OnTrack w batch view plan speed s₀ s' (events ++ H) job stage recorded := by
  have hhist : historyOf (jobOrigin job) (events ++ H) = historyOf (jobOrigin job) events := by
    rw [historyOf_append, historyOf_other hH hne, List.append_nil]
  refine ⟨h.asks, ?_⟩
  rw [hhist]
  refine SameRun.trans (fun hab hbc => hab.trans hbc) ?_ h.same
  cases stage with
  | running p => exact Program.sameRun (hsep.reads _) _ h.asks hview recorded _
  | ended fault => exact ⟨rfl, rfl, rfl, hview⟩

theorem historyOf_concat {o : Origin} {events : List (Event C E)} {e : Event C E} (h : e.origin? = some o) :
    historyOf o (events ++ [e]) = historyOf o events ++ [e] := by
  have hself : historyOf o [e] = [e] := historyOf_self fun e' he' => List.mem_singleton.mp he' ▸ h
  rw [historyOf_append, hself]

/-- A task stays on track by its own steps, and these leave the other views as they are. -/
theorem OnTrack.step (hsep : Separated w batch view) {t : Task C E} {p : Program C E Unit}
    (hp : t.stage = .running p) (ht : t.origin = jobOrigin job) {events : Array (Event C E)}
    (h : OnTrack w batch view plan speed s₀ s events.toList job t.stage t.recorded) :
    OnTrack w batch view plan speed s₀ (t.step w s events).2.1 (t.step w s events).2.2.toList job
        (t.step w s events).1.stage (t.step w s events).1.recorded ∧
      ∀ q, q ≠ some job.2 → view q (t.step w s events).2.1 = view q s := by
  -- a step moves one event from what the program has to do into the history, so both together stay the same
  obtain ⟨asks, same⟩ := h
  rw [hp] at asks same
  cases p with
  | done a =>
    simp only [Task.step, hp]
    exact ⟨⟨trivial, same⟩, fun _ _ => trivial⟩
  | mark m rest =>
    simp only [Task.step, hp, Program.step]
    refine ⟨⟨asks, ?_⟩, fun _ _ => trivial⟩
    rw [Array.toList_push, ht, historyOf_concat rfl]
    simpa [Stage.finish, Program.run] using same
  | ask c next =>
    have hreads := asks.2 s
    have hwrites := hsep.writes _ c asks.1
    rcases hans : w.answer c s with ⟨answer, s'⟩
    rw [hans] at hreads
    have hviews : ∀ q, q ≠ some job.2 → view q s' = view q s := fun q hq => by
      have hq := hwrites q hq s
      rwa [hans] at hq
    cases answer with
    | ok a =>
      simp only [Task.step, hp, Program.step, hans]
      refine ⟨⟨hreads a rfl, ?_⟩, hviews⟩
      rw [Array.toList_push, ht, historyOf_concat rfl]
      simpa [Stage.finish, Program.run, hans] using same
    | error fault =>
      simp only [Task.step, hp, Program.step, hans]
      refine ⟨⟨trivial, ?_⟩, hviews⟩
      rw [Array.toList_push, ht, historyOf_concat rfl]
      simpa [Stage.finish, Program.run, hans, endOf] using same

end Steps

/-! ## Pools -/

section Pool

variable (w : World σ C E) (batch : Batch E) (view : Option Nat → σ → τ) (plan : Plan) (speed : UInt32) (s₀ : σ)

/-- Every task and every report of a pool is on track, and no view has changed but those of the tasks. -/
structure Pool.Apart (todo : List (Region E × Nat)) (pool : Pool σ C E) : Prop where
  tasks : ∀ t ∈ pool.tasks, ∃ job ∈ todo, t.origin = jobOrigin job ∧
    OnTrack w batch view plan speed s₀ pool.state pool.events.toList job t.stage t.recorded
  reports : ∀ o ∈ pool.reports, ∃ job ∈ todo, o.place = job.2 ∧
    OnTrack w batch view plan speed s₀ pool.state pool.events.toList job (.ended o.fault) o.chunks
  others : ∀ p, (∀ job ∈ todo, p ≠ some job.2) → view p pool.state = view p s₀

end Pool

section Turns

variable {w : World σ C E} {batch : Batch E} {view : Option Nat → σ → τ} {plan : Plan} {speed : UInt32} {s₀ : σ}
  {todo : List (Region E × Nat)} {pool : Pool σ C E}

theorem place_of_origin {t : Task C E} {job : Region E × Nat} (h : t.origin = jobOrigin job) : t.place = job.2 :=
  Origin.place_eq h

theorem Pool.Apart.turn (hsep : Separated w batch view) (hnodup : (todo.map Prod.snd).Nodup)
    (hserves : pool.Serves plan speed w todo) (h : pool.Apart w batch view plan speed s₀ todo) (i : Nat) :
    (pool.turn w i).Apart w batch view plan speed s₀ todo := by
  obtain ⟨tasks, reports, s, events⟩ := pool
  rcases turn_cases w ⟨tasks, reports, s, events⟩ i with
    heq | ⟨l₁, t, l₂, fault, rfl, ht, heq⟩ | ⟨l₁, t, l₂, p, rfl, ht, heq⟩
  · rw [heq]
    exact h
  · -- a task that has ended reports; what it has done stays the same
    rw [heq]
    obtain ⟨job, hjob, horigin, htrack⟩ := h.tasks t (by simp)
    refine ⟨fun u hu => h.tasks u (mem_middle.mpr (.inr hu)), fun o ho => ?_, h.others⟩
    rcases List.mem_append.mp ho with ho | ho
    · exact h.reports o ho
    · obtain rfl := List.mem_singleton.mp ho
      rw [ht] at htrack
      exact ⟨job, hjob, place_of_origin horigin, htrack⟩
  · rw [heq]
    obtain ⟨job, hjob, horigin, htrack⟩ := h.tasks t (by simp)
    obtain ⟨hstep, hviews⟩ := htrack.step hsep ht horigin
    obtain ⟨H, hevents, hadv⟩ := t.step_advances w ht s events
    have horigins : ∀ e ∈ H, e.origin? = some (jobOrigin job) := horigin ▸ hadv.origin
    obtain ⟨hne, hne'⟩ := place_ne (hserves.places.nodup_iff.mpr hnodup)
    -- whoever stands at another place keeps its view
    have hframe : ∀ {job' stage recorded}, job'.2 ≠ t.place →
        OnTrack w batch view plan speed s₀ s events.toList job' stage recorded →
        OnTrack w batch view plan speed s₀ (t.step w s events).2.1 (t.step w s events).2.2.toList job' stage recorded := by
      intro job' stage recorded hplace htrack'
      rw [place_of_origin horigin] at hplace
      rw [hevents]
      refine htrack'.frame hsep (hviews _ fun h => hplace (Option.some.inj h)) horigins fun h => hplace ?_
      exact Origin.place_eq h
    refine ⟨fun u hu => ?_, fun o ho => ?_, fun q hq => ?_⟩
    · rcases mem_middle.mp hu with rfl | hu
      · refine ⟨job, hjob, ?_, hstep⟩
        rw [← horigin, Task.origin, Task.origin, hadv.place, hadv.region]
      · obtain ⟨job', hjob', horigin', htrack'⟩ := h.tasks u (mem_middle.mpr (.inr hu))
        exact ⟨job', hjob', horigin', hframe (place_of_origin horigin' ▸ hne u hu) htrack'⟩
    · obtain ⟨job', hjob', hplace, htrack'⟩ := h.reports o ho
      exact ⟨job', hjob', hplace, hframe (hplace ▸ hne' o ho) htrack'⟩
    · exact (hviews q (hq job hjob)).trans (h.others q hq)

end Turns

/-! ## Dispatch -/

section Dispatch

variable {w : World σ C E} {view : Option Nat → σ → τ} {plan : Plan} {turn : Turn C} {s : σ}

theorem Pool.apart_start (w : World σ C E) (batch : Batch E) (view : Option Nat → σ → τ) (plan : Plan) (speed : UInt32)
    (s : σ) :
    (Pool.start plan speed batch.regions.toList s).Apart w batch view plan speed s (jobs batch.regions.toList) := by
  refine ⟨fun t ht => ?_, by simp [Pool.start], fun _ _ => rfl⟩
  obtain ⟨job, hjob, rfl⟩ := List.mem_map.mp ht
  exact ⟨job, hjob, rfl, jobProgram_asks w plan speed hjob, rfl, rfl, rfl, rfl⟩

theorem dispatched_apart (plan : Plan) (hsep : Separated w (batchOf w turn s) view) :
    Pool.Apart w (batchOf w turn s) view plan turn.settings.randomTickSpeed s (jobs (batchOf w turn s).regions.toList)
      ⟨[], (dispatched w plan turn s).1, (dispatched w plan turn s).2.1, (dispatched w plan turn s).2.2⟩ := by
  obtain ⟨reports, hsort, -, hend⟩ := dispatch_induction w plan turn.settings.randomTickSpeed
    (batchOf w turn s).regions.toList s
    (P := fun pool => pool.Serves plan turn.settings.randomTickSpeed w (jobs (batchOf w turn s).regions.toList) ∧
      pool.Apart w (batchOf w turn s) view plan turn.settings.randomTickSpeed s (jobs (batchOf w turn s).regions.toList))
    ⟨Pool.serves_start _ s, Pool.apart_start w (batchOf w turn s) view plan turn.settings.randomTickSpeed s⟩
    fun pool h i => ⟨h.1.turn (jobs_nodup _) i, h.2.turn hsep (jobs_nodup _) h.1 i⟩
  exact ⟨by simp, fun o ho => hend.reports o (hsort.subset ho), hend.others⟩

/-- However the turns fall, the task of a region leaves the history and the view that it leaves when it runs alone. -/
theorem dispatched_alone (hsep : Separated w (batchOf w turn s) view) {job : Region E × Nat}
    (hjob : job ∈ jobs (batchOf w turn s).regions.toList) :
    historyOf (jobOrigin job) (dispatched w plan turn s).2.2.toList =
        (alone w plan turn.settings.randomTickSpeed s job).2.events.toList ∧
      view (some job.2) (dispatched w plan turn s).2.1 =
        view (some job.2) (alone w plan turn.settings.randomTickSpeed s job).2.state := by
  obtain ⟨o, ho, hserves⟩ := dispatched_report w plan turn s hjob
  obtain ⟨job', hjob', hplace, -, hsame⟩ := (dispatched_apart plan hsep).reports o ho
  have hjobs : job' = job :=
    List.inj_on_of_nodup_map (jobs_nodup _) hjob' hjob (hplace.symm.trans hserves.place)
  subst hjobs
  exact ⟨congrArg Array.toList hsame.events, hsame.state⟩

/-- The regions leave the view of what is outside them as it is. -/
theorem dispatched_view_none (hsep : Separated w (batchOf w turn s) view) :
    view none (dispatched w plan turn s).2.1 = view none s :=
  (dispatched_apart plan hsep).others none fun _ _ => nofun

end Dispatch

/-! ## Worlds side by side -/

/-- The keys that an agent sees who is `x` cells from the middle. -/
def keysAround (x : Int32) : KeySet := Window.toSet ⟨⟨x, 0⟩, 1⟩

/-- The regions of an agent in the middle and of one ten cells off, with an entity in each and one far from both. -/
def Batch.pair : Batch Nat := ⟨#[⟨.ofPlace 0, keysAround 0, #[0]⟩, ⟨.ofPlace 1, keysAround 10, #[1]⟩], #[5]⟩

/-- The part of that batch that a call is made for. -/
def Call.part : Call Key Nat → Option Nat
  | .lookup k => partOfKey k
  | .tickChunk k _ => partOfKey k
  | .isRemoved e => partOfEntity e
  | .isFrozen e => partOfEntity e
  | .vehicle e => partOfEntity e
  | .hasPassenger _ e => partOfEntity e
  | .stopRiding e => partOfEntity e
  | .checkDespawn e => partOfEntity e
  | .tickEntity e => partOfEntity e
where
  partOfKey (k : Key) : Option Nat :=
    if k ∈ keysAround 0 then some 0 else if k ∈ keysAround 10 then some 1 else none
  partOfEntity (e : Nat) : Option Nat := if e < 2 then some e else none

/-- Stumbling worlds side by side, one for each part: that of the part `p` stumbles at its call `n p`. -/
def World.sideBySide (n : Option Nat → Nat) : World (Option Nat → Nat) Key Nat where
  answer c s :=
    let a := (World.stumbling (n c.part)).answer c (s c.part)
    (a.1, Function.update s c.part a.2)
  keyOf := id
  cellOf _ e := ⟨.ofNat (10 * e), 0⟩
  tracked _ := [0, 1, 5]

def Turn.pair (loaded : List Key) : Turn Key := ⟨[⟨0, 0⟩, ⟨10, 0⟩], loaded, ⟨1, 3⟩, .unit⟩

section SideBySide

variable {n : Option Nat → Nat}

theorem keysAround_meets : (keysAround 0).meets (keysAround 10) = false := by decide +kernel

theorem batchOf_pair (n : Option Nat → Nat) (loaded : List Key) (s : Option Nat → Nat) :
    batchOf (.sideBySide n) (.pair loaded) s = .pair := by
  have hregions := regionsOf_pair (E := Nat) keysAround_meets
  rw [keysAround, keysAround] at hregions
  simp only [batchOf, Turn.pair, World.sideBySide, buildBatch, List.map_cons, List.map_nil, hregions]
  rfl

theorem pair_regions {i : Nat} {r : Region Nat} (hr : Batch.pair.regions[i]? = some r) :
    (∀ k ∈ r.chunks, Call.part.partOfKey k = some i) ∧ ∀ e ∈ r.entities, Call.part.partOfEntity e = some i := by
  match i with
  | 0 =>
    cases hr
    exact ⟨fun k hk => if_pos hk, fun e he => by rw [Array.mem_singleton.mp he]; rfl⟩
  | 1 =>
    cases hr
    refine ⟨fun k hk => ?_, fun e he => by rw [Array.mem_singleton.mp he]; rfl⟩
    have hnot : k ∉ keysAround 0 := fun h =>
      Bool.eq_false_iff.mp keysAround_meets (KeySet.meets_iff.mpr ⟨k, h, hk⟩)
    exact (if_neg hnot).trans (if_pos hk)
  | i + 2 => cases hr

/-- The part of a call is the only one that it is made for, in a world where chunks are their keys and nothing rides. -/
theorem Call.part_of_asksFor {w : World σ Key Nat} (hkeyOf : w.keyOf = id)
    (hlookup : ∀ k c s, (w.answer (.lookup k) s).1 = .ok (some c) → k = c)
    (hvehicle : ∀ e v s, (w.answer (.vehicle e) s).1 ≠ .ok (some v)) {p : Option Nat} {c : Call Key Nat}
    (h : w.AsksFor .pair p c) : c.part = p := by
  have hentity : ∀ {e c}, w.AsksAbout e c → c.part = Call.part.partOfEntity e := by
    intro e c hc
    cases hc with
    | isVehicleRemoved hv => exact absurd hv (hvehicle _ _ _)
    | hasPassenger hv => exact absurd hv (hvehicle _ _ _)
    | _ => rfl
  cases h with
  | lookup hr hk => exact (pair_regions hr).1 _ hk
  | tickFound hr hk hc => exact hlookup _ _ _ hc ▸ (pair_regions hr).1 _ hk
  | tickLoaded hr hc =>
    rw [hkeyOf] at hc
    exact (pair_regions hr).1 _ hc
  | entity hr he hc => exact (hentity hc).trans ((pair_regions hr).2 _ he)
  | unassigned he hc =>
    obtain rfl := Array.mem_singleton.mp he
    exact hentity hc

theorem part_of_asksFor {p : Option Nat} {c : Call Key Nat} (h : (World.sideBySide n).AsksFor .pair p c) :
    c.part = p := by
  refine Call.part_of_asksFor rfl (fun k c s hc => ?_) (fun e v s hv => ?_) h
  · by_cases hs : s (Call.part (.lookup k)) = n (Call.part (.lookup k))
    · simp [World.sideBySide, World.stumbling, hs] at hc
    · simpa [World.sideBySide, World.stumbling, hs] using hc
  · by_cases hs : s (Call.part (.vehicle e)) = n (Call.part (.vehicle e))
    · simp [World.sideBySide, World.stumbling, hs] at hv
    · simp [World.sideBySide, World.stumbling, hs] at hv

theorem sideBySide_separated (n : Option Nat → Nat) : Separated (.sideBySide n) .pair fun p s => s p := by
  refine ⟨fun p c hc s s' hview => ?_, fun p c hc q hq s => ?_⟩
  · obtain rfl := part_of_asksFor hc
    simp only [World.sideBySide, Function.update_self, hview]
    exact ⟨trivial, trivial⟩
  · obtain rfl := part_of_asksFor hc
    exact Function.update_of_ne hq _ _

end SideBySide

end GridTick
