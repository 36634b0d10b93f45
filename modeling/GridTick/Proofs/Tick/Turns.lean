import Mathlib.Data.List.Perm.Basic
import GridTick.Proofs.Tick.Ends

/-!
# GridTick.Proofs.Tick.Turns — what a pool of tasks leaves, however the turns fall

A pool may interleave its tasks in any way.  Whatever the turns, each task leaves its own history, which is one that
its program may leave, and reports what that history says.

* `Pool.turn_cases`: all that a turn can do.
* `Pool.exists_turns_drain`, `Pool.exists_turns_run`: running to the end is taking turns until no task is left.
* `Stage.Continues`, `Task.Advances`: a task between two of its turns.
* `Pool.Serves`: the invariant; `Pool.Serves.turn` keeps it.
* `dispatch_induction`: what holds at the start and is kept by every turn holds at the end.
* `dispatch_serves`: what `dispatch` gives back.
-/

namespace GridTick

variable {σ C E : Type}

/-! ## Turns -/

/-- What stands in a list is the entry in the middle, or one of those around it. -/
theorem mem_middle {α : Type} {l₁ l₂ : List α} {a b : α} : b ∈ l₁ ++ a :: l₂ ↔ b = a ∨ b ∈ l₁ ++ l₂ :=
  List.perm_middle.mem_iff.trans List.mem_cons

namespace Pool

/-- A turn does nothing, takes the report of a task that has ended, or lets a task do one step. -/
theorem turn_cases (w : World σ C E) (pool : Pool σ C E) (i : Nat) :
    pool.turn w i = pool ∨
      (∃ l₁ t l₂ fault, pool.tasks = l₁ ++ t :: l₂ ∧ t.stage = .ended fault ∧
        pool.turn w i = ⟨l₁ ++ l₂, pool.reports ++ [t.outcome fault], pool.state, pool.events⟩) ∨
      ∃ l₁ t l₂ p, pool.tasks = l₁ ++ t :: l₂ ∧ t.stage = .running p ∧
        pool.turn w i = ⟨l₁ ++ (t.step w pool.state pool.events).1 :: l₂, pool.reports,
          (t.step w pool.state pool.events).2.1, (t.step w pool.state pool.events).2.2⟩ := by
  cases hi : pool.tasks[i]? with
  | none => exact .inl (by rw [turn, hi])
  | some t =>
    obtain ⟨hlt, ht⟩ := List.getElem?_eq_some_iff.mp hi
    have hsplit : pool.tasks = pool.tasks.take i ++ t :: pool.tasks.drop (i + 1) := by
      rw [← ht, List.getElem_cons_drop, List.take_append_drop]
    cases hs : t.stage with
    | ended fault =>
      refine .inr (.inl ⟨_, t, _, fault, hsplit, hs, ?_⟩)
      simp only [turn, hi, hs]
      rw [List.eraseIdx_eq_take_drop_succ]
    | running p =>
      refine .inr (.inr ⟨_, t, _, p, hsplit, hs, ?_⟩)
      simp only [turn, hi, hs]
      rw [List.set_eq_take_append_cons_drop, if_pos hlt]

section Drain

variable (w : World σ C E)

/-- A turn of the first task before other turns. -/
theorem exists_turns_of_turn {pool pool' : Pool σ C E}
    (h : ∃ turns : List Nat, turns.foldl (turn w) (pool.turn w 0) = pool') :
    ∃ turns : List Nat, turns.foldl (turn w) pool = pool' := by
  obtain ⟨turns, hturns⟩ := h
  exact ⟨0 :: turns, hturns⟩

theorem exists_turns_ended (place : Nat) (region : RegionId) (entities : Nat) (recorded : KeySet) (fault : Option Fault)
    (rest : List (Task C E)) (reports : List Outcome) (s : σ) (events : Array (Event C E)) :
    ∃ turns : List Nat,
      turns.foldl (turn w) ⟨⟨place, region, entities, recorded, .ended fault⟩ :: rest, reports, s, events⟩ =
        ⟨rest, reports ++ [⟨place, region, recorded, entities, fault⟩], s, events⟩ :=
  ⟨[0], by simp [turn, Task.outcome]⟩

theorem exists_turns_running (place : Nat) (region : RegionId) (entities : Nat) (recorded : KeySet)
    (p : Program C E Unit) (rest : List (Task C E)) (reports : List Outcome) (s : σ) (events : Array (Event C E)) :
    let t : Task C E := ⟨place, region, entities, recorded, .running p⟩
    ∃ turns : List Nat, turns.foldl (turn w) ⟨t :: rest, reports, s, events⟩ =
      ⟨rest, reports ++ [(t.finish w s events).1], (t.finish w s events).2.1, (t.finish w s events).2.2⟩ := by
  induction p generalizing recorded s events with
  | done a =>
    refine exists_turns_of_turn w ?_
    simpa [turn, Task.step, Task.finish, Task.outcome, Program.run] using
      exists_turns_ended w place region entities recorded none rest reports s events
  | mark m q ih =>
    refine exists_turns_of_turn w ?_
    simpa [turn, Task.step, Task.finish, Task.outcome, Task.origin, Program.step, Program.run] using
      ih (m.record recorded) s (events.push (.marked (.task place region) m))
  | ask c next ih =>
    refine exists_turns_of_turn w ?_
    rcases hans : w.answer c s with ⟨answer, s'⟩
    cases answer with
    | ok a =>
      simpa [turn, Task.step, Task.finish, Task.outcome, Task.origin, Program.step, Program.run, hans] using
        ih a recorded s' (events.push (.called (.task place region) c (.ok a)))
    | error fault =>
      simpa [turn, Task.step, Task.finish, Task.outcome, Task.origin, Program.step, Program.run, hans] using
        exists_turns_ended w place region entities recorded (some fault) rest reports s'
          (events.push (.called (.task place region) c (.error fault)))

/-- Turns of the first task run it to its end and take its report. -/
theorem exists_turns_finish (t : Task C E) (rest : List (Task C E)) (reports : List Outcome) (s : σ)
    (events : Array (Event C E)) :
    ∃ turns : List Nat, turns.foldl (turn w) ⟨t :: rest, reports, s, events⟩ =
      ⟨rest, reports ++ [(t.finish w s events).1], (t.finish w s events).2.1, (t.finish w s events).2.2⟩ := by
  rcases t with ⟨place, region, entities, recorded, p | fault⟩
  · exact exists_turns_running w place region entities recorded p rest reports s events
  · exact exists_turns_ended w place region entities recorded fault rest reports s events

theorem exists_turns_drain (tasks : List (Task C E)) (reports : List Outcome) (s : σ) (events : Array (Event C E)) :
    ∃ turns : List Nat, turns.foldl (turn w) ⟨tasks, reports, s, events⟩ =
      ⟨[], reports ++ (drain w tasks s events).1, (drain w tasks s events).2.1, (drain w tasks s events).2.2⟩ := by
  induction tasks generalizing reports s events with
  | nil => exact ⟨[], by simp [drain]⟩
  | cons t rest ih =>
    obtain ⟨turns₁, h₁⟩ := exists_turns_finish w t rest reports s events
    obtain ⟨turns₂, h₂⟩ := ih (reports ++ [(t.finish w s events).1]) (t.finish w s events).2.1
      (t.finish w s events).2.2
    exact ⟨turns₁ ++ turns₂, by rw [List.foldl_append, h₁, h₂]; simp [drain]⟩

/-- Running a pool is taking turns until no task is left. -/
theorem exists_turns_run (turns : List Nat) (pool : Pool σ C E) :
    ∃ all : List Nat, all.foldl (turn w) pool =
      ⟨[], (run w turns pool).1, (run w turns pool).2.1, (run w turns pool).2.2⟩ := by
  obtain ⟨more, hmore⟩ := exists_turns_drain w (turns.foldl (turn w) pool).tasks (turns.foldl (turn w) pool).reports
    (turns.foldl (turn w) pool).state (turns.foldl (turn w) pool).events
  exact ⟨turns ++ more, by rw [List.foldl_append]; exact hmore⟩

end Drain

end Pool

/-! ## Histories by origin -/

section History

variable {o o' : Origin} {H H₁ H₂ : List (Event C E)}

theorem historyOf_append : historyOf o (H₁ ++ H₂) = historyOf o H₁ ++ historyOf o H₂ :=
  List.filter_append ..

theorem historyOf_self (h : ∀ e ∈ H, e.origin? = some o) : historyOf o H = H :=
  List.filter_eq_self.mpr fun e he => by simpa using h e he

theorem historyOf_other (h : ∀ e ∈ H, e.origin? = some o) (hne : o' ≠ o) : historyOf o' H = [] := by
  refine List.filter_eq_nil_iff.mpr fun e he => ?_
  rw [h e he]
  simpa using hne.symm

/-- Lines from nobody are in no history. -/
theorem historyOf_nobody (h : ∀ e ∈ H, e.origin? = none) : historyOf o H = [] := by
  refine List.filter_eq_nil_iff.mpr fun e he => ?_
  simp [h e he]

end History

/-! ## One task between its turns -/

/-- How a program ended, from the fault it ended with. -/
def endOf : Option Fault → Except Fault Unit
  | none => .ok ()
  | some fault => .error fault

/-- After the events `H`, a task of the program `p` may be at this stage. -/
def Stage.Continues (o : Origin) (p : Program C E Unit) (H : List (Event C E)) : Stage C E → Prop
  | .running rest => ∀ H' r, Program.Ends o rest H' r → Program.Ends o p (H ++ H') r
  | .ended fault => Program.Ends o p H (endOf fault)

/-- One task is the other a few events later. -/
structure Task.Advances (w : World σ C E) (t t' : Task C E) (H : List (Event C E)) : Prop where
  place : t'.place = t.place
  region : t'.region = t.region
  entities : t'.entities = t.entities
  recorded : t'.recorded = recordedKeys t.recorded H
  origin : ∀ e ∈ H, e.origin? = some t.origin
  given : ∀ e ∈ H, w.Gives e
  stage : ∀ p H₁, t.stage.Continues t.origin p H₁ → t'.stage.Continues t.origin p (H₁ ++ H)

/-- A step of a task that is not done is a step of its program. -/
theorem Task.step_running (w : World σ C E) (t : Task C E) {p : Program C E Unit} (hp : t.stage = .running p)
    (hne : ∀ a, p ≠ .done a) (s : σ) (events : Array (Event C E)) :
    t.step w s events =
      match p.step w t.origin ⟨s, t.recorded, events⟩ with
      | (.ok rest, ⟨s, recorded, events⟩) => ({ t with recorded, stage := .running rest }, s, events)
      | (.error fault, ⟨s, recorded, events⟩) => ({ t with recorded, stage := .ended (some fault) }, s, events) := by
  obtain ⟨place, region, entities, recorded, stage⟩ := t
  obtain rfl : stage = .running p := hp
  cases p with
  | done a => exact absurd rfl (hne a)
  | ask c next => rfl
  | mark m rest => rfl

theorem Task.step_advances (w : World σ C E) (t : Task C E) {p : Program C E Unit} (hp : t.stage = .running p) (s : σ)
    (events : Array (Event C E)) :
    ∃ H, (t.step w s events).2.2.toList = events.toList ++ H ∧ t.Advances w (t.step w s events).1 H := by
  by_cases hdone : ∃ a, p = .done a
  · obtain ⟨a, rfl⟩ := hdone
    refine ⟨[], by simp [step, hp], ?_⟩
    refine ⟨?_, ?_, ?_, ?_, by simp, by simp, ?_⟩
    · simp [step, hp]
    · simp [step, hp]
    · simp [step, hp]
    · simp [step, hp, recordedKeys]
    · intro q H₁ hcont
      rw [hp] at hcont
      have hends := hcont [] (.ok ()) (.done a)
      simpa [step, hp, Stage.Continues, endOf] using hends
  · obtain ⟨H, hext, horigin, hleaves⟩ := Program.ends_of_step w t.origin p ⟨s, t.recorded, events⟩
    have hstep := t.step_running w hp (fun a ha => hdone ⟨a, ha⟩) s events
    rcases hr : p.step w t.origin ⟨s, t.recorded, events⟩ with ⟨_ | rest, s', recorded, events'⟩
    · rw [hr] at hext hleaves hstep
      rw [hstep]
      refine ⟨H, hext.events, rfl, rfl, rfl, hext.recorded, horigin, hext.given, fun q H₁ hcont => ?_⟩
      rw [hp] at hcont
      exact hcont H _ hleaves
    · rw [hr] at hext hleaves hstep
      rw [hstep]
      refine ⟨H, hext.events, rfl, rfl, rfl, hext.recorded, horigin, hext.given, fun q H₁ hcont => ?_⟩
      rw [hp] at hcont
      intro H' r hends
      rw [List.append_assoc]
      exact hcont (H ++ H') r (hleaves H' r hends)

/-! ## The invariant -/

/-- Origin of what the task of a region does. -/
def jobOrigin (job : Region E × Nat) : Origin := .task job.2 job.1.id

/-- What the task of a region runs. -/
def jobProgram (plan : Plan) (speed : UInt32) (job : Region E × Nat) : Program C E Unit :=
  .regionTask speed (plan.enumerate job.1.id job.1.chunks) job.1.entities.toList

section Invariant

variable (plan : Plan) (speed : UInt32)

/-- A task works on a region, and has come as far as its own history says. -/
structure Task.Serves (events : List (Event C E)) (job : Region E × Nat) (t : Task C E) : Prop where
  place : t.place = job.2
  region : t.region = job.1.id
  entities : t.entities = job.1.entities.size
  recorded : t.recorded = recordedKeys ∅ (historyOf t.origin events)
  stage : t.stage.Continues t.origin (jobProgram plan speed job) (historyOf t.origin events)

/-- A report tells of the work on a region what its history says. -/
structure Outcome.Serves (events : List (Event C E)) (job : Region E × Nat) (o : Outcome) : Prop where
  place : o.place = job.2
  region : o.region = job.1.id
  entities : o.entities = job.1.entities.size
  chunks : o.chunks = recordedKeys ∅ (historyOf (jobOrigin job) events)
  ends : Program.Ends (jobOrigin job) (jobProgram plan speed job) (historyOf (jobOrigin job) events) (endOf o.fault)

/-- Every region is worked on by one task or has been reported once, and every event comes from one of them. -/
structure Pool.Serves (w : World σ C E) (todo : List (Region E × Nat)) (pool : Pool σ C E) : Prop where
  places : (pool.tasks.map Task.place ++ pool.reports.map Outcome.place).Perm (todo.map Prod.snd)
  tasks : ∀ t ∈ pool.tasks, ∃ job ∈ todo, t.Serves plan speed pool.events.toList job
  reports : ∀ o ∈ pool.reports, ∃ job ∈ todo, o.Serves plan speed pool.events.toList job
  origins : ∀ e ∈ pool.events.toList, ∃ job ∈ todo, e.origin? = some (jobOrigin job)
  given : ∀ e ∈ pool.events.toList, w.Gives e

end Invariant

section Preservation

variable {plan : Plan} {speed : UInt32} {w : World σ C E} {todo : List (Region E × Nat)} {pool : Pool σ C E}

theorem Task.Serves.origin_eq {events : List (Event C E)} {job : Region E × Nat} {t : Task C E}
    (h : t.Serves plan speed events job) : t.origin = jobOrigin job := by
  rw [Task.origin, jobOrigin, h.place, h.region]

/-- The report of a task that has ended. -/
theorem Task.Serves.outcome {events : List (Event C E)} {job : Region E × Nat} {t : Task C E} {fault : Option Fault}
    (h : t.Serves plan speed events job) (ht : t.stage = .ended fault) :
    (t.outcome fault).Serves plan speed events job := by
  have hstage := h.stage
  have hrecorded := h.recorded
  rw [ht, h.origin_eq] at hstage
  rw [h.origin_eq] at hrecorded
  exact ⟨h.place, h.region, h.entities, hrecorded, hstage⟩

/-- A task that advances goes on serving its region. -/
theorem Task.Serves.advance {events H : List (Event C E)} {job : Region E × Nat} {t t' : Task C E}
    (h : t.Serves plan speed events job) (hadv : t.Advances w t' H) : t'.Serves plan speed (events ++ H) job := by
  have horigin : t'.origin = t.origin := by rw [Task.origin, Task.origin, hadv.place, hadv.region]
  have hhist : historyOf t.origin (events ++ H) = historyOf t.origin events ++ H := by
    rw [historyOf_append, historyOf_self hadv.origin]
  refine ⟨hadv.place.trans h.place, hadv.region.trans h.region, hadv.entities.trans h.entities, ?_, ?_⟩
  · rw [horigin, hhist, recordedKeys_append, ← h.recorded, hadv.recorded]
  · rw [horigin, hhist]
    exact hadv.stage _ _ h.stage

/-- Events of another place change nothing for a task. -/
theorem Task.Serves.frame {events H : List (Event C E)} {job : Region E × Nat} {t : Task C E} {o : Origin}
    (h : t.Serves plan speed events job) (hH : ∀ e ∈ H, e.origin? = some o) (hne : t.origin ≠ o) :
    t.Serves plan speed (events ++ H) job := by
  have hhist : historyOf t.origin (events ++ H) = historyOf t.origin events := by
    rw [historyOf_append, historyOf_other hH hne, List.append_nil]
  exact ⟨h.place, h.region, h.entities, by rw [hhist, h.recorded], by rw [hhist]; exact h.stage⟩

/-- Events of another place change nothing for a report. -/
theorem Outcome.Serves.frame {events H : List (Event C E)} {job : Region E × Nat} {r : Outcome} {o : Origin}
    (h : r.Serves plan speed events job) (hH : ∀ e ∈ H, e.origin? = some o) (hne : jobOrigin job ≠ o) :
    r.Serves plan speed (events ++ H) job := by
  have hhist : historyOf (jobOrigin job) (events ++ H) = historyOf (jobOrigin job) events := by
    rw [historyOf_append, historyOf_other hH hne, List.append_nil]
  exact ⟨h.place, h.region, h.entities, by rw [hhist, h.chunks], by rw [hhist]; exact h.ends⟩

theorem Origin.place_eq {i j : Nat} {a b : RegionId} (h : Origin.task i a = .task j b) : i = j := by
  cases h
  rfl

/-- A task that reports leaves its place to its report. -/
theorem Pool.places_report (l₁ l₂ : List (Task C E)) (t : Task C E) (reports : List Outcome) (fault : Option Fault) :
    ((l₁ ++ l₂).map Task.place ++ (reports ++ [t.outcome fault]).map Outcome.place).Perm
      ((l₁ ++ t :: l₂).map Task.place ++ reports.map Outcome.place) := by
  rw [List.map_append, List.map_append, List.map_append, List.map_cons, List.append_assoc, List.append_assoc]
  refine List.Perm.append_left _ ?_
  simp [Task.outcome, ← List.append_assoc]

/-- Nothing else stands at the place of a task. -/
theorem Pool.place_ne {l₁ l₂ : List (Task C E)} {t : Task C E} {reports : List Outcome}
    (hnodup : ((l₁ ++ t :: l₂).map Task.place ++ reports.map Outcome.place).Nodup) :
    (∀ u ∈ l₁ ++ l₂, u.place ≠ t.place) ∧ ∀ r ∈ reports, r.place ≠ t.place := by
  have hperm : ((l₁ ++ t :: l₂).map Task.place ++ reports.map Outcome.place).Perm
      (t.place :: ((l₁ ++ l₂).map Task.place ++ reports.map Outcome.place)) := by
    simp
  have hnot := (List.nodup_cons.mp (hperm.nodup_iff.mp hnodup)).1
  refine ⟨fun u hu h => hnot ?_, fun r hr h => hnot ?_⟩
  · exact List.mem_append_left _ (List.mem_map.mpr ⟨u, hu, h⟩)
  · exact List.mem_append_right _ (List.mem_map.mpr ⟨r, hr, h⟩)

section Moves

variable {l₁ l₂ : List (Task C E)} {t t' : Task C E} {reports : List Outcome} {s s' : σ}
  {events events' : Array (Event C E)}

/-- A task that has ended moves over to the reports. -/
theorem Pool.Serves.report {fault : Option Fault}
    (h : Pool.Serves plan speed w todo ⟨l₁ ++ t :: l₂, reports, s, events⟩) (ht : t.stage = .ended fault) :
    Pool.Serves plan speed w todo ⟨l₁ ++ l₂, reports ++ [t.outcome fault], s, events⟩ := by
  obtain ⟨hplaces, htasks, hreports, horigins, hgiven⟩ := h
  refine ⟨(places_report l₁ l₂ t reports fault).trans hplaces, fun u hu => htasks u (mem_middle.mpr (.inr hu)), ?_,
    horigins, hgiven⟩
  intro r hr
  rcases List.mem_append.mp hr with hr | hr
  · exact hreports r hr
  · obtain rfl := List.mem_singleton.mp hr
    obtain ⟨job, hjob, hserves⟩ := htasks t (by simp)
    exact ⟨job, hjob, hserves.outcome ht⟩

/-- A task goes on, and its events are none of the others' business. -/
theorem Pool.Serves.advance {H : List (Event C E)}
    (h : Pool.Serves plan speed w todo ⟨l₁ ++ t :: l₂, reports, s, events⟩) (hnodup : (todo.map Prod.snd).Nodup)
    (hevents : events'.toList = events.toList ++ H) (hadv : t.Advances w t' H) :
    Pool.Serves plan speed w todo ⟨l₁ ++ t' :: l₂, reports, s', events'⟩ := by
  obtain ⟨hplaces, htasks, hreports, horigins, hgiven⟩ := h
  obtain ⟨job, hjob, hserves⟩ := htasks t (by simp)
  obtain ⟨hne, hne'⟩ := place_ne (hplaces.nodup_iff.mpr hnodup)
  refine ⟨?_, fun u hu => ?_, fun r hr => ?_, fun e he => ?_, fun e he => ?_⟩
  · simpa [hadv.place] using hplaces
  · rw [hevents]
    rcases mem_middle.mp hu with rfl | hu
    · exact ⟨job, hjob, hserves.advance hadv⟩
    · obtain ⟨job', hjob', hserves'⟩ := htasks u (mem_middle.mpr (.inr hu))
      exact ⟨job', hjob', hserves'.frame hadv.origin fun h => hne u hu (Origin.place_eq h)⟩
  · obtain ⟨job', hjob', hserves'⟩ := hreports r hr
    rw [hevents]
    refine ⟨job', hjob', hserves'.frame hadv.origin fun h => hne' r hr ?_⟩
    exact hserves'.place.trans (Origin.place_eq h)
  · rw [hevents] at he
    rcases List.mem_append.mp he with he | he
    · exact horigins e he
    · exact ⟨job, hjob, by rw [hadv.origin e he, hserves.origin_eq]⟩
  · rw [hevents] at he
    rcases List.mem_append.mp he with he | he
    · exact hgiven e he
    · exact hadv.given e he

end Moves

/-- A turn keeps the invariant. -/
theorem Pool.Serves.turn (h : pool.Serves plan speed w todo) (hnodup : (todo.map Prod.snd).Nodup) (i : Nat) :
    (pool.turn w i).Serves plan speed w todo := by
  obtain ⟨tasks, reports, s, events⟩ := pool
  rcases turn_cases w ⟨tasks, reports, s, events⟩ i with
    heq | ⟨l₁, t, l₂, fault, rfl, ht, heq⟩ | ⟨l₁, t, l₂, p, rfl, ht, heq⟩
  · rw [heq]
    exact h
  · rw [heq]
    exact h.report ht
  · obtain ⟨H, hevents, hadv⟩ := t.step_advances w ht s events
    rw [heq]
    exact h.advance hnodup hevents hadv

end Preservation

/-! ## Dispatch -/

section Dispatch

variable {plan : Plan} {speed : UInt32} {w : World σ C E}

theorem mem_jobs {regions : List (Region E)} {r : Region E} {i : Nat} :
    (r, i) ∈ jobs regions ↔ regions[i]? = some r ∧ r.isEmpty = false := by
  simp [jobs, List.mem_filter, List.mem_zipIdx_iff_getElem?]

theorem mem_jobs_regions {batch : Batch E} {r : Region E} {i : Nat} :
    (r, i) ∈ jobs batch.regions.toList ↔ batch.regions[i]? = some r ∧ r.isEmpty = false := by
  rw [mem_jobs, Array.getElem?_toList]

theorem jobs_nodup (regions : List (Region E)) : ((jobs regions).map Prod.snd).Nodup := by
  have hsub : ((jobs regions).map Prod.snd).Sublist (regions.zipIdx.map Prod.snd) :=
    List.Sublist.map _ List.filter_sublist
  rw [List.zipIdx_map_snd] at hsub
  exact hsub.nodup List.nodup_range'

theorem exists_report {speed : UInt32} {regions : List (Region E)} {outcomes : List Outcome} {events : List (Event C E)}
    (hplaces : (outcomes.map Outcome.place).Perm ((jobs regions).map Prod.snd))
    (hreports : ∀ o ∈ outcomes, ∃ job ∈ jobs regions, o.Serves plan speed events job) {job : Region E × Nat}
    (hjob : job ∈ jobs regions) : ∃ o ∈ outcomes, o.Serves plan speed events job := by
  obtain ⟨o, ho, hplace⟩ := List.mem_map.mp (hplaces.symm.subset (List.mem_map_of_mem hjob))
  obtain ⟨job', hjob', hserves⟩ := hreports o ho
  have hsame : job' = job := by
    have hr := (mem_jobs.mp hjob).1
    have hr' := (mem_jobs.mp hjob').1
    rw [← hserves.place, hplace, hr] at hr'
    exact Prod.ext (Option.some.inj hr').symm (hserves.place.symm.trans hplace)
  exact ⟨o, ho, hsame ▸ hserves⟩

/-- The tasks of regions before their first turn. -/
def Pool.start (plan : Plan) (speed : UInt32) (regions : List (Region E)) (s : σ) : Pool σ C E :=
  ⟨(jobs regions).map fun (r, place) => Task.ofRegion plan speed r place, [], s, #[]⟩

theorem Pool.start_places (plan : Plan) (speed : UInt32) (regions : List (Region E)) (s : σ) :
    (Pool.start plan speed regions s : Pool σ C E).tasks.map Task.place = (jobs regions).map Prod.snd := by
  simp [Pool.start, Task.ofRegion, Function.comp_def]

/-- Before the first turn nothing has happened. -/
theorem Pool.serves_start (regions : List (Region E)) (s : σ) :
    (Pool.start plan speed regions s).Serves plan speed w (jobs regions) := by
  refine ⟨?_, ?_, by simp [Pool.start], by simp [Pool.start], by simp [Pool.start]⟩
  · rw [Pool.start_places]
    simp [Pool.start]
  · intro t ht
    obtain ⟨job, hjob, rfl⟩ := List.mem_map.mp ht
    exact ⟨job, hjob, rfl, rfl, rfl, rfl, fun H' r h => h⟩

/-- What holds of the tasks before their first turn, and is kept by every turn, holds when all have reported; `dispatch`
puts the reports in order. -/
theorem dispatch_induction (w : World σ C E) (plan : Plan) (speed : UInt32) (regions : List (Region E)) (s : σ)
    {P : Pool σ C E → Prop} (hstart : P (.start plan speed regions s)) (hturn : ∀ pool, P pool → ∀ i, P (pool.turn w i)) :
    ∃ reports, (dispatch w plan speed regions s #[]).1.Perm reports ∧
      P ⟨[], reports, (dispatch w plan speed regions s #[]).2.1, (dispatch w plan speed regions s #[]).2.2⟩ := by
  have hturns : ∀ (turns : List Nat) pool, P pool → P (turns.foldl (Pool.turn w) pool) := by
    intro turns
    induction turns with
    | nil => exact fun pool h => h
    | cons i rest ih => exact fun pool h => ih (pool.turn w i) (hturn pool h i)
  obtain ⟨all, hall⟩ := Pool.exists_turns_run w plan.turns (Pool.start plan speed regions s)
  have hend := hturns all _ hstart
  rw [hall] at hend
  exact ⟨_, List.mergeSort_perm _ _, hend⟩

/-- After `dispatch` every region that has a chunk has been reported once, as its history says. -/
theorem dispatch_serves (w : World σ C E) (plan : Plan) (speed : UInt32) (regions : List (Region E)) (s : σ) :
    Pool.Serves plan speed w (jobs regions)
      ⟨[], (dispatch w plan speed regions s #[]).1, (dispatch w plan speed regions s #[]).2.1,
        (dispatch w plan speed regions s #[]).2.2⟩ := by
  have hstart : (Pool.start plan speed regions s).Serves plan speed w (jobs regions) := Pool.serves_start regions s
  obtain ⟨reports, hsort, hend⟩ := dispatch_induction w plan speed regions s hstart
    fun pool h i => h.turn (jobs_nodup regions) i
  refine ⟨?_, by simp, ?_, hend.origins, hend.given⟩
  · exact (hsort.map _).trans hend.places
  · exact fun o ho => hend.reports o (hsort.subset ho)

end Dispatch

end GridTick
