import GridTick.Proofs.Tick.Alone

/-!
# GridTick.Proofs.Tick.Commuting — turns of tasks whose calls commute

A turn of one task may be put off until the tasks before it are done, if its call commutes with theirs.  So the tasks of
a pool can be run one after another, in the order in which they stand, and whatever turns they have taken before makes
no difference to what they report, to what each leaves of its contracts, and to the state.

* `World.Commutes`, `World.Respects`: calls that commute, up to states that no call can tell apart.
* `Program.run_past`, `Pool.drain_past`: a call put off until a program, or a list of tasks, is done.
* `Task.step_past`: a step put off until the tasks before it are done.
* `Pool.Orderly`: tasks at different places that ask for their own parts only; `Pool.Orderly.turn` keeps it.
* `SameWork`: two dispatches that come to the same.
* `Pool.run_turn`, `Pool.run_turns`: turns change nothing.
-/

namespace GridTick

variable {σ C E α β : Type}

/-! ## Calls that commute -/

/-- Two calls answer the same in either order, and leave states that are alike. -/
structure World.Commutes (w : World σ C E) (alike : σ → σ → Prop) (c c' : Call C E) : Prop where
  first : ∀ s, (w.answer c (w.answer c' s).2).1 = (w.answer c s).1
  second : ∀ s, (w.answer c' (w.answer c s).2).1 = (w.answer c' s).1
  state : ∀ s, alike (w.answer c' (w.answer c s).2).2 (w.answer c (w.answer c' s).2).2

/-- No call tells states apart that are alike.  Equal states are an instance; so are states that differ in a log that
no call reads. -/
structure World.Respects (w : World σ C E) (alike : σ → σ → Prop) : Prop where
  refl : ∀ s, alike s s
  trans : ∀ {a b c}, alike a b → alike b c → alike a c
  symm : ∀ {a b}, alike a b → alike b a
  answer : ∀ c s s', alike s s' → (w.answer c s).1 = (w.answer c s').1
  state : ∀ c s s', alike s s' → alike (w.answer c s).2 (w.answer c s').2

namespace Program

theorem asks_anything (w : World σ C E) (p : Program C E α) : p.Asks w (fun _ => True) fun _ => True := by
  induction p with
  | done a => trivial
  | ask c next ih => exact ⟨trivial, fun _ a _ => ih a⟩
  | mark m rest ih => exact ih

variable {w : World σ C E} {alike : σ → σ → Prop} {Q : α → Prop} {c : Call C E} {s s' : σ}

theorem run_alike (hw : w.Respects alike) (o : Origin) (p : Program C E α) (hs : alike s s') (keys : KeySet)
    (events : Array (Event C E)) : SameRun alike (p.run w o ⟨s, keys, events⟩) (p.run w o ⟨s', keys, events⟩) :=
  sameRun (fun c _ a b hab => ⟨hw.answer c a b hab, hw.state c a b hab⟩) o (asks_anything w p) hs keys events

/-- A call can be put off until a program is done whose calls commute with it. -/
theorem run_past (hw : w.Respects alike) (o : Origin) {p : Program C E α} (hp : p.Asks w (w.Commutes alike c) Q) (s : σ)
    (keys : KeySet) (events : Array (Event C E)) :
    let ran := p.run w o ⟨s, keys, events⟩
    (w.answer c ran.2.state).1 = (w.answer c s).1 ∧
      SameRun alike (p.run w o ⟨(w.answer c s).2, keys, events⟩)
        (ran.1, ⟨(w.answer c ran.2.state).2, ran.2.recorded, ran.2.events⟩) := by
  induction p generalizing s keys events with
  | done a => exact ⟨rfl, rfl, rfl, rfl, hw.refl _⟩
  | mark m rest ih => exact ih hp s _ _
  | ask c' next ih =>
    obtain ⟨hcomm, hnext⟩ := hp
    have hfirst := hcomm.first s
    have hsecond := hcomm.second s
    have hstate := hcomm.state s
    have hnext := hnext s
    rcases hans : w.answer c' s with ⟨answer, t⟩
    rw [hans] at hfirst hsecond hstate hnext
    rcases hans' : w.answer c' (w.answer c s).2 with ⟨answer', t'⟩
    rw [hans'] at hsecond hstate
    obtain rfl : answer' = answer := hsecond
    cases answer' with
    | error fault =>
      simp only [run, hans, hans']
      exact ⟨hfirst, rfl, rfl, rfl, hstate⟩
    | ok a =>
      -- both runs go on with the same answer, from states that are alike once the call is put off
      obtain ⟨hanswer, hlate⟩ := ih a (hnext a rfl) t keys (events.push (.called o c' (.ok a)))
      have hearly := run_alike hw o (next a) hstate keys (events.push (.called o c' (.ok a)))
      simp only [run, hans, hans']
      exact ⟨hanswer.trans hfirst, hearly.trans @hw.trans hlate⟩

end Program

/-! ## Tasks run to their ends -/

/-- Two results with the same value after the same events, in states that are alike. -/
structure SameEnd (alike : σ → σ → Prop) (x y : β × σ × Array (Event C E)) : Prop where
  value : x.1 = y.1
  events : x.2.2 = y.2.2
  state : alike x.2.1 y.2.1

/-- The fault that a program ended with, if it did. -/
def faultIn : Except Fault Unit → Option Fault
  | .ok _ => none
  | .error fault => some fault

namespace Task

/-- What comes of a task whose stage ends so. -/
def report (t : Task C E) (end_ : Except Fault Unit × Trail σ C E) : Outcome × σ × Array (Event C E) :=
  (⟨t.place, t.region, end_.2.recorded, t.entities, faultIn end_.1⟩, end_.2.state, end_.2.events)

theorem finish_eq (w : World σ C E) (t : Task C E) (s : σ) (events : Array (Event C E)) :
    t.finish w s events = t.report (t.stage.finish w t.origin ⟨s, t.recorded, events⟩) := by
  rw [finish]
  cases t.stage with
  | ended fault => cases fault <;> rfl
  | running p =>
    dsimp only [Stage.finish]
    rcases p.run w t.origin ⟨s, t.recorded, events⟩ with ⟨fault | _, trail⟩
    · rfl
    · rfl

variable {w : World σ C E} {alike : σ → σ → Prop} {c : Call C E} {s s' : σ}

theorem report_alike (t : Task C E) {x y : Except Fault Unit × Trail σ C E} (h : SameRun alike x y) :
    SameEnd alike (t.report x) (t.report y) := by
  refine ⟨?_, h.events, h.state⟩
  simp only [report, h.result, h.recorded]

theorem finish_alike (hw : w.Respects alike) (t : Task C E) (hs : alike s s') (events : Array (Event C E)) :
    SameEnd alike (t.finish w s events) (t.finish w s' events) := by
  rw [finish_eq, finish_eq]
  refine t.report_alike ?_
  cases t.stage with
  | ended fault => exact ⟨rfl, rfl, rfl, hs⟩
  | running p => exact Program.run_alike hw _ p hs _ _

theorem finish_past (hw : w.Respects alike) {t : Task C E} (ht : t.stage.Asks w (w.Commutes alike c)) (s : σ)
    (events : Array (Event C E)) :
    let ended := t.finish w s events
    (w.answer c ended.2.1).1 = (w.answer c s).1 ∧
      SameEnd alike (t.finish w (w.answer c s).2 events) (ended.1, (w.answer c ended.2.1).2, ended.2.2) := by
  obtain ⟨place, region, entities, recorded, stage⟩ := t
  rw [finish_eq, finish_eq]
  cases stage with
  | ended fault => exact ⟨rfl, rfl, rfl, hw.refl _⟩
  | running p =>
    obtain ⟨hanswer, hsame⟩ := Program.run_past hw (.task place region) ht s recorded events
    exact ⟨hanswer, report_alike _ hsame⟩

theorem finish_from (w : World σ C E) (t : Task C E) (s : σ) (events : Array (Event C E)) :
    t.finish w s events = ((t.finish w s #[]).1, (t.finish w s #[]).2.1, events ++ (t.finish w s #[]).2.2) := by
  rw [finish_eq, finish_eq]
  cases t.stage with
  | ended fault => simp [report, Stage.finish]
  | running p =>
    simp only [report, Stage.finish]
    rw [Program.run_from]

theorem step_from (w : World σ C E) (t : Task C E) (s : σ) (events : Array (Event C E)) :
    t.step w s events = ((t.step w s #[]).1, (t.step w s #[]).2.1, events ++ (t.step w s #[]).2.2) := by
  rcases t with ⟨place, region, entities, recorded, (a | ⟨c, next⟩ | ⟨m, rest⟩) | fault⟩
  · simp [step]
  · rcases hans : w.answer c s with ⟨_ | _, s'⟩
    · simp [step, Program.step, hans]
    · simp [step, Program.step, hans]
  · simp [step, Program.step]
  · simp [step]

/-- A step leaves it to the rest of the task to come to the same end. -/
theorem finish_step (w : World σ C E) (t : Task C E) (s : σ) (events : Array (Event C E)) : t.finish w s events =
    (t.step w s events).1.finish w (t.step w s events).2.1 (t.step w s events).2.2 := by
  rcases t with ⟨place, region, entities, recorded, (a | ⟨c, next⟩ | ⟨m, rest⟩) | fault⟩
  · rfl
  · rcases hans : w.answer c s with ⟨_ | _, s'⟩
    · simp [finish, step, Program.step, Program.run, hans, outcome, origin]
    · simp [finish, step, Program.step, Program.run, hans, outcome, origin]
  · rfl
  · rfl

theorem step_origin (w : World σ C E) (t : Task C E) (s : σ) (events : Array (Event C E)) :
    (t.step w s events).1.place = t.place ∧ (t.step w s events).1.origin = t.origin := by
  rcases t with ⟨place, region, entities, recorded, (a | ⟨c, next⟩ | ⟨m, rest⟩) | fault⟩
  · exact ⟨rfl, rfl⟩
  · rcases hans : w.answer c s with ⟨_ | _, s'⟩
    · simp [step, Program.step, hans, origin]
    · simp [step, Program.step, hans, origin]
  · exact ⟨rfl, rfl⟩
  · exact ⟨rfl, rfl⟩

/-- What is left of a task asks for no more than the task did. -/
theorem step_asks {P : Call C E → Prop} {t : Task C E} (ht : t.stage.Asks w P) (s : σ) (events : Array (Event C E)) :
    (t.step w s events).1.stage.Asks w P := by
  rcases t with ⟨place, region, entities, recorded, (a | ⟨c, next⟩ | ⟨m, rest⟩) | fault⟩
  · trivial
  · have hnext := ht.2 s
    rcases hans : w.answer c s with ⟨_ | a, s'⟩
    · simp only [step, Program.step, hans]
      trivial
    · rw [hans] at hnext
      simp only [step, Program.step, hans]
      exact hnext a rfl
  · exact ht
  · trivial

end Task

/-! ## Tasks one after another -/

namespace Pool

theorem drain_from (w : World σ C E) (tasks : List (Task C E)) (s : σ) (events : Array (Event C E)) :
    drain w tasks s events =
      ((drain w tasks s #[]).1, (drain w tasks s #[]).2.1, events ++ (drain w tasks s #[]).2.2) := by
  induction tasks generalizing s events with
  | nil => simp [drain]
  | cons t rest ih =>
    simp only [drain]
    rw [t.finish_from, ih _ (events ++ (t.finish w s #[]).2.2), ih _ (t.finish w s #[]).2.2, Array.append_assoc]

theorem drain_append (w : World σ C E) (l₁ l₂ : List (Task C E)) (s : σ) (events : Array (Event C E)) :
    let first := drain w l₁ s #[]
    let second := drain w l₂ first.2.1 #[]
    drain w (l₁ ++ l₂) s events = (first.1 ++ second.1, second.2.1, events ++ first.2.2 ++ second.2.2) := by
  induction l₁ generalizing s events with
  | nil => simpa [drain] using drain_from w l₂ s events
  | cons t rest ih =>
    simp only [List.cons_append, drain, ih]
    rw [t.finish_from, drain_from w rest _ (t.finish w s #[]).2.2]
    simp only [Array.append_assoc]

/-- A step of the first task leaves the rest to be done. -/
theorem drain_step (w : World σ C E) (t : Task C E) (rest : List (Task C E)) (s : σ) :
    let stepped := t.step w s #[]
    let later := drain w (stepped.1 :: rest) stepped.2.1 #[]
    drain w (t :: rest) s #[] = (later.1, later.2.1, stepped.2.2 ++ later.2.2) := by
  have hstep : drain w (t :: rest) s #[] =
      drain w ((t.step w s #[]).1 :: rest) (t.step w s #[]).2.1 (t.step w s #[]).2.2 := by
    simp only [drain]
    rw [t.finish_step]
  rw [hstep, drain_from]

theorem drain_origins (w : World σ C E) (tasks : List (Task C E)) (s : σ) :
    ∀ e ∈ (drain w tasks s #[]).2.2.toList, ∃ t ∈ tasks, e.origin? = some t.origin := by
  induction tasks generalizing s with
  | nil => exact fun e he => absurd he (by simp [drain])
  | cons t rest ih =>
    intro e he
    simp only [drain] at he
    rw [drain_from, Array.toList_append] at he
    rcases List.mem_append.mp he with he | he
    · refine ⟨t, List.mem_cons_self .., ?_⟩
      rw [t.finish_eq] at he
      cases hstage : t.stage with
      | ended fault =>
        rw [hstage] at he
        exact absurd he (by simp [Task.report, Stage.finish])
      | running p =>
        obtain ⟨H, hext, hends⟩ := Program.ends_of_run w t.origin p ⟨s, t.recorded, #[]⟩
        rw [hstage] at he
        have hH : (p.run w t.origin ⟨s, t.recorded, #[]⟩).2.events.toList = H := by simpa using hext.events
        exact hends.origin e (hH ▸ he)
    · obtain ⟨u, hu, horigin⟩ := ih _ e he
      exact ⟨u, List.mem_cons_of_mem _ hu, horigin⟩

variable {w : World σ C E} {alike : σ → σ → Prop} {c : Call C E} {s s' : σ}

theorem drain_alike (hw : w.Respects alike) (tasks : List (Task C E)) (hs : alike s s') (events : Array (Event C E)) :
    SameEnd alike (drain w tasks s events) (drain w tasks s' events) := by
  induction tasks generalizing s s' events with
  | nil => exact ⟨rfl, rfl, hs⟩
  | cons t rest ih =>
    obtain ⟨hvalue, hevents, hstate⟩ := t.finish_alike hw hs events
    have hrest := ih hstate (t.finish w s events).2.2
    simp only [drain]
    rw [← hevents, ← hvalue]
    exact ⟨congrArg (List.cons _) hrest.value, hrest.events, hrest.state⟩

/-- A call can be put off until tasks are done whose calls commute with it. -/
theorem drain_past (hw : w.Respects alike) {tasks : List (Task C E)}
    (htasks : ∀ t ∈ tasks, t.stage.Asks w (w.Commutes alike c)) (s : σ) (events : Array (Event C E)) :
    let ended := drain w tasks s events
    (w.answer c ended.2.1).1 = (w.answer c s).1 ∧
      SameEnd alike (drain w tasks (w.answer c s).2 events) (ended.1, (w.answer c ended.2.1).2, ended.2.2) := by
  induction tasks generalizing s events with
  | nil => exact ⟨rfl, rfl, rfl, hw.refl _⟩
  | cons t rest ih =>
    obtain ⟨hanswer, hvalue, hevents, hstate⟩ := Task.finish_past hw (htasks t (List.mem_cons_self ..)) s events
    obtain ⟨hanswer', hlate⟩ := ih (fun u hu => htasks u (List.mem_cons_of_mem _ hu)) (t.finish w s events).2.1
      (t.finish w s events).2.2
    have hearly := drain_alike hw rest hstate (t.finish w s events).2.2
    simp only [drain]
    rw [hevents, hvalue]
    refine ⟨hanswer'.trans hanswer, ?_, hearly.events.trans hlate.events, hw.trans hearly.state hlate.state⟩
    exact congrArg (List.cons _) (hearly.value.trans hlate.value)

end Pool

/-- A step can be put off until the tasks before it are done, if they commute. -/
theorem Task.step_past {w : World σ C E} {alike : σ → σ → Prop} (hw : w.Respects alike) {P : Call C E → Prop}
    {t : Task C E} (ht : t.stage.Asks w P) {tasks : List (Task C E)}
    (htasks : ∀ c, P c → ∀ u ∈ tasks, u.stage.Asks w (w.Commutes alike c)) (s : σ) :
    let early := t.step w s #[]
    let before := Pool.drain w tasks s #[]
    let late := t.step w before.2.1 #[]
    late.1 = early.1 ∧ late.2.2 = early.2.2 ∧
      SameEnd alike (Pool.drain w tasks early.2.1 #[]) (before.1, late.2.1, before.2.2) := by
  rcases t with ⟨place, region, entities, recorded, (a | ⟨c, next⟩ | ⟨m, rest⟩) | fault⟩
  · exact ⟨rfl, rfl, rfl, rfl, hw.refl _⟩
  · obtain ⟨hanswer, hsame⟩ := Pool.drain_past hw (htasks c ht.1) s #[]
    rcases hearly : w.answer c s with ⟨answer, s'⟩
    rcases hlate : w.answer c (Pool.drain w tasks s #[]).2.1 with ⟨answer', s''⟩
    rw [hearly, hlate] at hanswer hsame
    obtain rfl : answer' = answer := hanswer
    cases answer' with
    | ok a =>
      simp only [step, Program.step, hearly, hlate]
      exact ⟨trivial, trivial, hsame⟩
    | error fault =>
      simp only [step, Program.step, hearly, hlate]
      exact ⟨trivial, trivial, hsame⟩
  · exact ⟨rfl, rfl, rfl, rfl, hw.refl _⟩
  · exact ⟨rfl, rfl, rfl, rfl, hw.refl _⟩

/-! ## Turns -/

instance (c : Call C E) : Decidable c.OfContract :=
  match c with
  | .lookup _ | .tickChunk _ _ => .isFalse id
  | .isRemoved _ | .isFrozen _ | .vehicle _ | .hasPassenger _ _ | .stopRiding _ | .checkDespawn _ | .tickEntity _ =>
    .isTrue trivial

instance (e : Event C E) : Decidable e.OfOffer :=
  match e with
  | .called _ c _ => inferInstanceAs (Decidable c.OfContract)
  | .marked _ (.offered _) | .marked _ (.settled _ _) => .isTrue trivial
  | .marked _ (.recorded _) | .noticed _ | .joined => .isFalse id

/-- What an origin leaves of its offers: the contract calls with their answers, and the notes around them. -/
def offersOf (o : Origin) (events : List (Event C E)) : List (Event C E) :=
  (historyOf o events).filter fun e => e.OfOffer

theorem offersOf_append {o : Origin} {H₁ H₂ : List (Event C E)} :
    offersOf o (H₁ ++ H₂) = offersOf o H₁ ++ offersOf o H₂ := by
  rw [offersOf, historyOf_append, List.filter_append]
  rfl

theorem offersOf_other {o : Origin} {H : List (Event C E)} (h : ∀ e ∈ H, e.origin? ≠ some o) : offersOf o H = [] := by
  have hnone : historyOf o H = [] := List.filter_eq_nil_iff.mpr fun e he => by simpa using h e he
  rw [offersOf, hnone]
  rfl

/-- Two dispatches that come to the same: the same reports, in whatever order they arrive, the same offers by each
origin, and states that are alike. -/
structure SameWork (alike : σ → σ → Prop) (x y : List Outcome × σ × Array (Event C E)) : Prop where
  outcomes : x.1.Perm y.1
  state : alike x.2.1 y.2.1
  offers : ∀ o, offersOf o x.2.2.toList = offersOf o y.2.2.toList

theorem SameWork.trans {alike : σ → σ → Prop} {x y z : List Outcome × σ × Array (Event C E)} (hxy : SameWork alike x y)
    (h : ∀ {a b c}, alike a b → alike b c → alike a c) (hyz : SameWork alike y z) : SameWork alike x z :=
  ⟨hxy.outcomes.trans hyz.outcomes, h hxy.state hyz.state, fun o => (hxy.offers o).trans (hyz.offers o)⟩

/-- Calls that are made for different regions do not get in each other's way. -/
structure Independent (w : World σ C E) (batch : Batch E) (alike : σ → σ → Prop) : Prop where
  respects : w.Respects alike
  apart : ∀ i j, i ≠ j → ∀ c c', w.AsksFor batch (some i) c → w.AsksFor batch (some j) c' → w.Commutes alike c c'

/-- Parts that share no state have calls that commute, up to what the parts view. -/
theorem Separated.commutes {τ : Type} {w : World σ C E} {batch : Batch E} {view : Option Nat → σ → τ}
    (h : Separated w batch view) {p q : Option Nat} (hpq : p ≠ q) {c c' : Call C E} (hc : w.AsksFor batch p c)
    (hc' : w.AsksFor batch q c') : w.Commutes (fun s s' => ∀ r, view r s = view r s') c c' := by
  have hleft : ∀ s, view p (w.answer c' s).2 = view p s := h.writes q c' hc' p hpq
  have hright : ∀ s, view q (w.answer c s).2 = view q s := h.writes p c hc q hpq.symm
  refine ⟨fun s => (h.reads p c hc _ _ (hleft s)).1, fun s => (h.reads q c' hc' _ _ (hright s)).1, fun s r => ?_⟩
  by_cases hrp : r = p
  · subst hrp
    exact (hleft _).trans (h.reads r c hc _ _ (hleft s)).2.symm
  · by_cases hrq : r = q
    · subst hrq
      exact (h.reads r c' hc' _ _ (hright s)).2.trans (hright _).symm
    · rw [h.writes q c' hc' r hrq, h.writes p c hc r hrp, h.writes p c hc r hrp, h.writes q c' hc' r hrq]

namespace Pool

/-- Tasks at different places, each of which asks for its own part of a batch only. -/
structure Orderly (w : World σ C E) (batch : Batch E) (pool : Pool σ C E) : Prop where
  places : (pool.tasks.map Task.place).Nodup
  asks : ∀ t ∈ pool.tasks, t.stage.Asks w (w.AsksFor batch (some t.place))

section Turns

variable {w : World σ C E} {batch : Batch E} {alike : σ → σ → Prop} {pool : Pool σ C E}

/-- Tasks stay at different places. -/
theorem places_turn (h : (pool.tasks.map Task.place).Nodup) (i : Nat) :
    ((pool.turn w i).tasks.map Task.place).Nodup := by
  obtain ⟨tasks, reports, s, events⟩ := pool
  rcases turn_cases w ⟨tasks, reports, s, events⟩ i with
    heq | ⟨l₁, t, l₂, fault, rfl, ht, heq⟩ | ⟨l₁, t, l₂, p, rfl, ht, heq⟩
  · rw [heq]
    exact h
  · rw [heq]
    exact h.sublist (((List.Sublist.refl l₁).append (List.sublist_cons_self t l₂)).map _)
  · rw [heq]
    rw [List.map_append, List.map_cons] at h ⊢
    rwa [(t.step_origin w s events).1]

theorem Orderly.turn (h : pool.Orderly w batch) (i : Nat) : (pool.turn w i).Orderly w batch := by
  refine ⟨places_turn h.places i, ?_⟩
  obtain ⟨tasks, reports, s, events⟩ := pool
  rcases turn_cases w ⟨tasks, reports, s, events⟩ i with
    heq | ⟨l₁, t, l₂, fault, rfl, ht, heq⟩ | ⟨l₁, t, l₂, p, rfl, ht, heq⟩
  · rw [heq]
    exact h.asks
  · rw [heq]
    exact fun u hu => h.asks u (mem_middle.mpr (.inr hu))
  · rw [heq]
    intro u hu
    rcases mem_middle.mp hu with rfl | hu
    · rw [(t.step_origin w s events).1]
      exact Task.step_asks (h.asks t (by simp)) s events
    · exact h.asks u (mem_middle.mpr (.inr hu))

/-- A turn does not change what the tasks come to when they are then run one after another. -/
theorem run_turn (hind : Independent w batch alike) (h : pool.Orderly w batch) (i : Nat) :
    SameWork alike (run w [] pool) (run w [] (pool.turn w i)) := by
  obtain ⟨tasks, reports, s, events⟩ := pool
  have hw := hind.respects
  rcases turn_cases w ⟨tasks, reports, s, events⟩ i with
    heq | ⟨l₁, t, l₂, fault, rfl, ht, heq⟩ | ⟨l₁, t, l₂, p, rfl, ht, heq⟩
  · rw [heq]
    exact ⟨List.Perm.refl _, hw.refl _, fun _ => rfl⟩
  · -- the report of a task that has ended comes before those of the tasks that stand before it
    have hfinish : ∀ s' (events' : Array (Event C E)), t.finish w s' events' = (t.outcome fault, s', events') := by
      intro s' events'
      rw [Task.finish, ht]
    rw [heq]
    simp only [run, List.foldl_nil, drain_append, drain, hfinish]
    refine ⟨?_, hw.refl _, fun _ => rfl⟩
    rw [List.append_assoc]
    exact List.Perm.append_left _ List.perm_middle
  · -- the step is put off until the tasks that stand before its own are done
    have hne : ∀ u ∈ l₁, u.place ≠ t.place := fun u hu =>
      (@place_ne _ _ l₁ l₂ t [] (by simpa using h.places)).1 u (List.mem_append_left _ hu)
    have hcommute : ∀ c, w.AsksFor batch (some t.place) c → ∀ u ∈ l₁, u.stage.Asks w (w.Commutes alike c) := by
      intro c hc u hu
      have hasks := h.asks u (List.mem_append_left _ hu)
      cases hstage : u.stage with
      | ended fault => trivial
      | running q =>
        rw [hstage] at hasks
        exact Program.Asks.mono hasks fun c' hc' => hind.apart _ _ (hne u hu).symm c c' hc hc'
    obtain ⟨hlate, hlateEvents, hvalue, hevents, hstate⟩ := Task.step_past hw (h.asks t (by simp)) hcommute s
    have hrest := drain_alike hw ((t.step w s #[]).1 :: l₂) hstate #[]
    have hswap : ∀ o, offersOf o (drain w l₁ s #[]).2.2.toList ++ offersOf o (t.step w s #[]).2.2.toList =
        offersOf o (t.step w s #[]).2.2.toList ++ offersOf o (drain w l₁ s #[]).2.2.toList := by
      intro o
      by_cases ho : o = t.origin
      · have hbefore : offersOf o (drain w l₁ s #[]).2.2.toList = [] := offersOf_other fun e he heq => by
          obtain ⟨u, hu, horigin⟩ := drain_origins w l₁ s e he
          exact hne u hu (Origin.place_eq (Option.some.inj (horigin.symm.trans (heq.trans (congrArg some ho)))))
        rw [hbefore, List.nil_append, List.append_nil]
      · have hstep : offersOf o (t.step w s #[]).2.2.toList = [] := offersOf_other fun e he heq => by
          obtain ⟨H, hH, hadv⟩ := t.step_advances w ht s #[]
          have hH : (t.step w s #[]).2.2.toList = H := by simpa using hH
          exact ho (Option.some.inj (heq.symm.trans (hadv.origin e (hH ▸ he))))
        rw [hstep, List.nil_append, List.append_nil]
    rw [heq, t.step_from]
    simp only [run, List.foldl_nil]
    rw [drain_append, drain_append, drain_step, hlate, hlateEvents, ← hrest.value, hvalue]
    refine ⟨List.Perm.refl _, hw.symm hrest.state, fun o => ?_⟩
    simp only [Array.toList_append, offersOf_append]
    rw [← hrest.events, hevents, List.append_assoc, ← List.append_assoc (offersOf o (drain w l₁ s #[]).2.2.toList),
      hswap]
    simp only [List.append_assoc]

/-- However the tasks have taken turns, they come to what they come to one after another. -/
theorem run_turns (hind : Independent w batch alike) (h : pool.Orderly w batch) (turns : List Nat) :
    SameWork alike (run w [] pool) (run w turns pool) := by
  induction turns generalizing pool with
  | nil => exact ⟨List.Perm.refl _, hind.respects.refl _, fun _ => rfl⟩
  | cons i rest ih => exact (run_turn hind h i).trans @hind.respects.trans (ih (h.turn i))

end Turns

end Pool

end GridTick
