import GridTick.Proofs.Tick.Riding
import GridTick.Proofs.Tick.Schedule

/-!
# GridTick.Proofs.Tick.AnyOrder — entities may be offered their ticks in any order

Where contracts go by a riding, the contract of an entity finds the answers that the riding gave at the beginning,
whoever has been taken off in the meantime: only its own contract takes an entity off.  So the order in which entities
are offered their ticks makes no difference, and neither does it make one who offers them.

* `World.Rides`: calls that go by a riding.
* `Program.Minds`: programs that read and clear the links of their own entities only, before they take them off.
* `Program.run_minds`, `Task.step_minds`: what they find and what they leave.
* `Pool.Minds`: the same of tasks side by side; `Pool.Minds.turn` keeps it.
* `offers_anyOrder`: offers one after another, and the offers of a tick.
-/

namespace GridTick

variable {σ C E α β : Type} [DecidableEq E]

/-- Calls of a kind go by the riding in the state.  They return, with the answers that it gives, and leave it as it is;
only that stopping to ride takes an entity off. -/
structure World.Rides (w : World σ C E) (riding : σ → Riding E) (P : Call C E → Prop) : Prop where
  answers : ∀ c, P c → ∀ s, ∃ a, (w.answer c s).1 = .ok a ∧ c.Told (riding s) a
  keeps : ∀ c, P c → c.dismounted? = none → ∀ s, riding (w.answer c s).2 = riding s
  dismounts : ∀ e, P (.stopRiding e) → ∀ s, riding (w.answer (.stopRiding e) s).2 = (riding s).dismount e

section Answers

variable {w : World σ C E} {riding : σ → Riding E} {P : Call C E → Prop} {p : Riding E} {off : List E} {s : σ}

/-- What others being taken off has not changed. -/
theorem Call.told_of_foldl_dismount {c : Call C E} {a : c.Answer} (h : c.Told (off.foldl Riding.dismount p) a)
    (hfresh : ∀ e, c.rider? = some e → e ∉ off) : c.Told p a := by
  obtain ⟨hremoved, hfrozen⟩ := Riding.foldl_dismount_fixed p off
  cases c with
  | isRemoved e => exact Eq.trans h (congrFun hremoved e)
  | isFrozen e => exact Eq.trans h (congrFun hfrozen e)
  | vehicle e => exact Eq.trans h (Riding.sameFor_foldl_dismount (hfresh e rfl)).vehicle
  | hasPassenger v e => exact Eq.trans h ((Riding.sameFor_foldl_dismount (hfresh e rfl)).lists v)
  | lookup => trivial
  | tickChunk => trivial
  | stopRiding => trivial
  | checkDespawn => trivial
  | tickEntity => trivial

theorem World.Rides.answer (h : w.Rides riding P) {c : Call C E} (hc : P c)
    (hs : riding s = off.foldl Riding.dismount p) (hfresh : ∀ e, c.rider? = some e → e ∉ off) :
    ∃ a s', w.answer c s = (.ok a, s') ∧ c.Told p a ∧
      riding s' = (off ++ c.dismounted?.toList).foldl Riding.dismount p := by
  obtain ⟨a, ha, htold⟩ := h.answers c hc s
  refine ⟨a, (w.answer c s).2, Prod.ext ha rfl, Call.told_of_foldl_dismount (hs ▸ htold) hfresh, ?_⟩
  rw [List.foldl_append, ← hs]
  cases c with
  | stopRiding e => exact h.dismounts e hc s
  | _ => exact h.keeps _ hc rfl s

end Answers

/-! ## Programs that mind their own entities -/

namespace Program

/-- Told by a riding, a program makes calls of a kind, and reads and clears the links of its own entities only; an entity
that it has taken off is no longer its own. -/
def Minds (P : Call C E → Prop) (p : Riding E) : Program C E α → (E → Prop) → Prop
  | .done _, _ => True
  | .mark _ rest, mine => rest.Minds P p mine
  | .ask c next, mine => P c ∧ (∀ e, c.rider? = some e → mine e) ∧
      ∀ a, c.Told p a → (next a).Minds P p fun e => mine e ∧ c.dismounted? ≠ some e

variable {P : Call C E → Prop} {p : Riding E} {mine mine' rest : E → Prop}

theorem Minds.mono {q : Program C E α} (h : q.Minds P p mine) (hmine : ∀ e, mine e → mine' e) : q.Minds P p mine' := by
  induction q generalizing mine mine' with
  | done a => trivial
  | mark m q ih => exact ih h hmine
  | ask c next ih =>
    obtain ⟨hc, hrider, hnext⟩ := h
    exact ⟨hc, fun e he => hmine e (hrider e he), fun a ha => ih a (hnext a ha) fun e he => ⟨hmine e he.1, he.2⟩⟩

/-- A sequence of two programs minds the entities of both, if they have none in common. -/
theorem Minds.bind {q : Program C E α} {f : α → Program C E β} (hq : q.Minds P p mine) (hf : ∀ a, (f a).Minds P p rest)
    (hapart : ∀ e, mine e → ¬ rest e) : (q.bind f).Minds P p fun e => mine e ∨ rest e := by
  induction q generalizing mine with
  | done a => exact (hf a).mono fun _ he => .inr he
  | mark m q ih => exact ih hq hapart
  | ask c next ih =>
    obtain ⟨hc, hrider, hnext⟩ := hq
    refine ⟨hc, fun e he => .inl (hrider e he), fun a ha => ?_⟩
    refine (ih a (hnext a ha) fun e he => hapart e he.1).mono fun e he => ?_
    rcases he with ⟨hmine, hkept⟩ | hrest
    · exact ⟨.inl hmine, hkept⟩
    · exact ⟨.inr hrest, fun hoff => hapart e (hrider e (Call.rider?_of_dismounted? hoff)) hrest⟩

/-- A call that takes nobody off. -/
theorem Minds.call {c : Call C E} {f : c.Answer → Program C E β} (hc : P c) (hoff : c.dismounted? = none)
    (hrider : ∀ e, c.rider? = some e → mine e) (hf : ∀ a, (f a).Minds P p mine) :
    ((Program.call c).bind f).Minds P p mine :=
  ⟨hc, hrider, fun a _ => (hf a).mono fun _ he => ⟨he, hoff ▸ nofun⟩⟩

/-- A call that has nothing to do with the links of a rider. -/
theorem Minds.other {c : Call C E} {f : c.Answer → Program C E β} (hc : P c) (hrider : c.rider? = none)
    (hf : ∀ a, (f a).Minds P p mine) : ((Program.call c).bind f).Minds P p mine := by
  have hoff : c.dismounted? = none := by
    cases hoff : c.dismounted? with
    | none => rfl
    | some e =>
      rw [Call.rider?_of_dismounted? hoff] at hrider
      cases hrider
  refine Minds.call hc hoff (fun e he => ?_) hf
  rw [hrider] at he
  cases he

theorem contract_minds (hP : ∀ c : Call C E, c.OfContract → P c) (e : E) : (contract e).Minds P p (· = e) := by
  have hticked : ∀ (dismounted : Bool) (mine : E → Prop), ((Program.call (.tickEntity e)).bind fun _ =>
      (pure (.ticked dismounted) : Program C E EntityTick)).Minds P p mine := fun _ _ =>
    Minds.other (hP _ trivial) rfl fun _ => trivial
  refine Minds.other (hP _ trivial) rfl fun gone => ?_
  cases gone with
  | true => trivial
  | false =>
    refine Minds.other (hP _ trivial) rfl fun frozen => ?_
    cases frozen with
    | true => trivial
    | false =>
      refine Minds.other (hP _ trivial) rfl fun _ => ?_
      refine Minds.call (hP _ trivial) rfl (fun e' he' => (Option.some.inj he').symm) fun vehicle => ?_
      cases vehicle with
      | none => exact hticked false _
      | some v =>
        have hcarries : ∀ {f : Bool → Program C E EntityTick}, (∀ carried, (f carried).Minds P p (· = e)) →
            ((stillCarries v e).bind f).Minds P p (· = e) := by
          intro f hf
          rw [stillCarries, bind_eq, bind_assoc]
          refine Minds.other (hP _ trivial) rfl fun gone => ?_
          cases gone with
          | true => exact hf false
          | false => exact Minds.call (hP _ trivial) rfl (fun e' he' => (Option.some.inj he').symm) hf
        refine hcarries fun carried => ?_
        cases carried with
        | true => trivial
        | false => exact ⟨hP _ trivial, fun e' he' => (Option.some.inj he').symm, fun _ _ => hticked true _⟩

theorem offerAll_minds (hP : ∀ c : Call C E, c.OfContract → P c) {entities : List E} (hnodup : entities.Nodup) :
    (offerAll entities).Minds P p (· ∈ entities) := by
  induction entities with
  | nil => trivial
  | cons e rest ih =>
    obtain ⟨hnot, hrest⟩ := List.nodup_cons.mp hnodup
    have hoffer : (offer e).Minds P p (· = e) := by
      refine ((contract_minds hP e).bind (f := fun result => (note (.settled e result)).bind fun _ => pure result)
        (fun _ => trivial) fun _ _ => id).mono fun e' he' => ?_
      exact he'.elim id False.elim
    refine (hoffer.bind (fun _ => ih hrest) fun e' he' hmem => hnot (he' ▸ hmem)).mono fun e' he' => ?_
    exact List.mem_cons.mpr he'

theorem resolve_minds (hP : ∀ c, P c) {f : List (Key × C) → Program C E β} (hf : ∀ found, (f found).Minds P p mine)
    (keys : List Key) (found : List (Key × C)) : ((resolve keys found).bind f).Minds P p mine := by
  induction keys generalizing found with
  | nil => exact hf _
  | cons k rest ih =>
    rw [resolve, bind_eq, bind_assoc]
    refine Minds.other (hP _) rfl fun chunk => ?_
    cases chunk with
    | none => exact ih found
    | some c => exact ih ((k, c) :: found)

theorem tickFound_minds (hP : ∀ c, P c) {f : Unit → Program C E β} (hf : (f ()).Minds P p mine) (speed : UInt32)
    (found : List (Key × C)) : ((tickFound speed found).bind f).Minds P p mine := by
  induction found with
  | nil => exact hf
  | cons q rest ih =>
    rw [tickFound, bind_eq, bind_assoc]
    exact Minds.other (hP _) rfl fun _ => ih

theorem tickAll_minds (hP : ∀ c, P c) {f : Unit → Program C E β} (hf : (f ()).Minds P p mine) (speed : UInt32)
    (chunks : List C) : ((tickAll speed chunks).bind f).Minds P p mine := by
  induction chunks with
  | nil => exact hf
  | cons c rest ih =>
    rw [tickAll, bind_eq, bind_assoc]
    exact Minds.other (hP _) rfl fun _ => ih

theorem regionTask_minds (hP : ∀ c, P c) (speed : UInt32) (keys : List Key) {entities : List E}
    (hnodup : entities.Nodup) : (regionTask speed keys entities).Minds P p (· ∈ entities) :=
  resolve_minds hP (fun found => tickFound_minds hP (offerAll_minds (fun c _ => hP c) hnodup) speed found) keys []

theorem sweep_minds (hP : ∀ c, P c) (speed : UInt32) (chunks : List C) {entities : List E} (hnodup : entities.Nodup) :
    (sweep speed chunks entities).Minds P p (· ∈ entities) :=
  tickAll_minds hP (offerAll_minds (fun c _ => hP c) hnodup) speed chunks

/-! ## Runs and steps of such programs -/

variable {w : World σ C E} {riding : σ → Riding E} {off : List E} {s : σ}

/-- A program that minds its own entities is told by the riding at the beginning, whoever else has been taken off. -/
theorem run_minds (h : w.Rides riding P) (o : Origin) {q : Program C E α} (hq : q.Minds P p mine)
    (hs : riding s = off.foldl Riding.dismount p) (hfresh : ∀ e, mine e → e ∉ off) (keys : KeySet)
    (events : Array (Event C E)) :
    ∃ H, (q.run w o ⟨s, keys, events⟩).2.events.toList = events.toList ++ H ∧ (∀ ev ∈ H, ev.Told p) ∧
      riding (q.run w o ⟨s, keys, events⟩).2.state = (off ++ dismounts H).foldl Riding.dismount p := by
  induction q generalizing mine off s keys events with
  | done a => exact ⟨[], by simp [run], by simp, by simpa [run, dismounts] using hs⟩
  | mark m q ih =>
    obtain ⟨H, hevents, htold, hstate⟩ := ih hq hs hfresh (m.record keys) (events.push (.marked o m))
    exact ⟨.marked o m :: H, by simpa [run] using hevents, List.forall_mem_cons.mpr ⟨trivial, htold⟩, hstate⟩
  | ask c next ih =>
    obtain ⟨hc, hrider, hnext⟩ := hq
    obtain ⟨a, s', hans, hanswer, hs'⟩ := h.answer hc hs fun e he => hfresh e (hrider e he)
    have hfresh' : ∀ e, (mine e ∧ c.dismounted? ≠ some e) → e ∉ off ++ c.dismounted?.toList := by
      rintro e ⟨hmine, hkept⟩ hmem
      rcases List.mem_append.mp hmem with hmem | hmem
      · exact hfresh e hmine hmem
      · exact hkept (Option.mem_toList.mp hmem)
    obtain ⟨H, hevents, htold, hstate⟩ := ih a (hnext a hanswer) hs' hfresh' keys (events.push (.called o c (.ok a)))
    simp only [run, hans]
    refine ⟨.called o c (.ok a) :: H, by simpa using hevents, List.forall_mem_cons.mpr ⟨hanswer, htold⟩, ?_⟩
    rw [hstate, dismounts_called, List.append_assoc]

end Program

/-- What is left of a task minds its own entities. -/
def Stage.Minds (P : Call C E → Prop) (p : Riding E) : Stage C E → (E → Prop) → Prop
  | .running q, mine => q.Minds P p mine
  | .ended _, _ => True

section Tasks

variable {w : World σ C E} {riding : σ → Riding E} {P : Call C E → Prop} {p : Riding E} {mine : E → Prop} {off : List E}
  {s : σ}

theorem Stage.Minds.mono {mine' : E → Prop} {stage : Stage C E} (h : stage.Minds P p mine)
    (hmine : ∀ e, mine e → mine' e) : stage.Minds P p mine' := by
  cases stage with
  | running q => exact Program.Minds.mono h hmine
  | ended fault => trivial

theorem Task.step_minds (h : w.Rides riding P) {t : Task C E} (ht : t.stage.Minds P p mine)
    (hs : riding s = off.foldl Riding.dismount p) (hfresh : ∀ e, mine e → e ∉ off) (events : Array (Event C E)) :
    ∃ H, (t.step w s events).2.2.toList = events.toList ++ H ∧ (∀ ev ∈ H, ev.Told p) ∧
      riding (t.step w s events).2.1 = (off ++ dismounts H).foldl Riding.dismount p ∧ (∀ e ∈ dismounts H, mine e) ∧
      (t.step w s events).1.stage.Minds P p fun e => mine e ∧ e ∉ dismounts H := by
  have hidle : riding s = (off ++ []).foldl Riding.dismount p := by rwa [List.append_nil]
  rcases t with ⟨place, region, entities, recorded, (a | ⟨c, next⟩ | ⟨m, rest⟩) | fault⟩
  · exact ⟨[], by simp [step], by simp, hidle, by simp [dismounts], trivial⟩
  · obtain ⟨hc, hrider, hnext⟩ := ht
    obtain ⟨a, s', hans, hanswer, hs'⟩ := h.answer hc hs fun e he => hfresh e (hrider e he)
    have hoff : dismounts [Event.called (.task place region) c (.ok a)] = c.dismounted?.toList := by
      rw [dismounts_called]
      exact List.append_nil _
    simp only [step, Program.step, hans]
    refine ⟨[.called (.task place region) c (.ok a)], by simp [origin],
      List.forall_mem_singleton.mpr hanswer, hoff ▸ hs', ?_, ?_⟩
    · intro e he
      rw [hoff, Option.mem_toList] at he
      exact hrider e (Call.rider?_of_dismounted? he)
    · refine Program.Minds.mono (hnext a hanswer) fun e he => ⟨he.1, fun hmem => he.2 ?_⟩
      rwa [hoff, Option.mem_toList] at hmem
  · refine ⟨[.marked (.task place region) m], by simp [step, Program.step, origin], ?_, hidle, ?_, ?_⟩
    · exact List.forall_mem_cons.mpr ⟨trivial, by simp⟩
    · simp [dismounts, Event.dismounted?]
    · exact Program.Minds.mono ht fun e he => ⟨he, by simp [dismounts, Event.dismounted?]⟩
  · exact ⟨[], by simp [step], by simp, hidle, by simp [dismounts], trivial⟩

/-! ## Tasks side by side -/

/-- Tasks side by side that were told by one riding so far, and each of which minds the entities at home in its place
that it has not taken off. -/
structure Pool.Minds (riding : σ → Riding E) (P : Call C E → Prop) (p : Riding E) (home : E → Option Nat)
    (pool : Pool σ C E) : Prop where
  places : (pool.tasks.map Task.place).Nodup
  told : ∀ ev ∈ pool.events.toList, ev.Told p
  state : riding pool.state = (dismounts pool.events.toList).foldl Riding.dismount p
  homes : ∀ e ∈ dismounts pool.events.toList, home e ≠ none
  tasks : ∀ t ∈ pool.tasks,
    t.stage.Minds P p fun e => home e = some t.place ∧ e ∉ dismounts pool.events.toList

theorem Pool.Minds.turn (h : w.Rides riding P) {home : E → Option Nat} {pool : Pool σ C E}
    (hpool : pool.Minds riding P p home) (i : Nat) : (pool.turn w i).Minds riding P p home := by
  have hplaces' := places_turn (w := w) hpool.places i
  obtain ⟨tasks, reports, s, events⟩ := pool
  rcases turn_cases w ⟨tasks, reports, s, events⟩ i with
    heq | ⟨l₁, t, l₂, fault, rfl, ht, heq⟩ | ⟨l₁, t, l₂, q, rfl, ht, heq⟩
  · rw [heq]
    exact hpool
  · rw [heq] at hplaces' ⊢
    exact ⟨hplaces', hpool.told, hpool.state, hpool.homes, fun u hu => hpool.tasks u (mem_middle.mpr (.inr hu))⟩
  · obtain ⟨hplaces, htold, hstate, hhomes, htasks⟩ := hpool
    obtain ⟨H, hevents, hnew, hstate', hmine, hminds⟩ :=
      Task.step_minds h (htasks t (by simp)) hstate (fun e he => he.2) events
    rw [heq] at hplaces' ⊢
    refine ⟨hplaces', ?_, ?_, ?_, fun u hu => ?_⟩
    · rw [hevents]
      exact fun ev hev => (List.mem_append.mp hev).elim (htold ev) (hnew ev)
    · rw [hevents, dismounts_append]
      exact hstate'
    · rw [hevents, dismounts_append]
      intro e he
      rcases List.mem_append.mp he with he | he
      · exact hhomes e he
      · rw [(hmine e he).1]
        exact Option.some_ne_none _
    · rw [hevents, dismounts_append]
      rcases mem_middle.mp hu with rfl | hu
      · rw [(t.step_origin w s events).1]
        exact hminds.mono fun e he => ⟨he.1.1, by simp [he.1.2, he.2]⟩
      · -- whom the step takes off is not at home in another place
        have hne : u.place ≠ t.place := (@place_ne _ _ l₁ l₂ t [] (by simpa using hplaces)).1 u hu
        refine (htasks u (mem_middle.mpr (.inr hu))).mono fun e he => ⟨he.1, ?_⟩
        intro hmem
        rcases List.mem_append.mp hmem with hmem | hmem
        · exact he.2 hmem
        · exact hne (Option.some.inj (he.1.symm.trans (hmine e hmem).1))

end Tasks

/-! ## The offers of a tick -/

section Tick

variable {w : World σ C E} {riding : σ → Riding E} {p : Riding E} {plan : Plan} {turn : Turn C} {s : σ}

/-- The place of the region that an entity goes to. -/
def homeIn (w : World σ C E) (turn : Turn C) (s : σ) (e : E) : Option Nat :=
  goesTo (w.cellOf s) turn.agents turn.settings.viewDistance e

theorem Pool.minds_start (w : World σ C E) (turn : Turn C) (hnodup : (w.tracked s).Nodup) (plan : Plan) :
    (Pool.start plan turn.settings.randomTickSpeed (batchOf w turn s).regions.toList s).Minds riding
      (fun _ : Call C E => True) (riding s) (homeIn w turn s) := by
  refine ⟨?_, by simp [Pool.start], rfl, by simp [Pool.start, dismounts], fun t ht => ?_⟩
  · rw [Pool.start_places]
    exact jobs_nodup _
  · obtain ⟨⟨r, i⟩, hjob, rfl⟩ := List.mem_map.mp ht
    have hentities : r.entities.toList = (w.tracked s).filter fun e => homeIn w turn s e = some i :=
      buildBatch_entities (mem_jobs_batchOf.mp hjob)
    have hminds := Program.regionTask_minds (P := fun _ : Call C E => True) (p := riding s) (fun _ => trivial)
      turn.settings.randomTickSpeed (plan.enumerate r.id r.chunks) (hentities ▸ hnodup.filter _)
    refine hminds.mono fun e he => ⟨?_, by simp [Pool.start, dismounts]⟩
    rw [hentities, List.mem_filter] at he
    exact of_decide_eq_true he.2

/-- The dispatch is told by the riding at the beginning, and takes nobody off that is outside the regions. -/
theorem dispatched_minds (h : w.Rides riding fun _ => True) (hnodup : (w.tracked s).Nodup) (plan : Plan) (turn : Turn C) :
    let events := (dispatched w plan turn s).2.2.toList
    (∀ ev ∈ events, ev.Told (riding s)) ∧
      riding (dispatched w plan turn s).2.1 = (dismounts events).foldl Riding.dismount (riding s) ∧
      ∀ e ∈ dismounts events, homeIn w turn s e ≠ none := by
  intro events
  obtain ⟨reports, -, hend⟩ := dispatch_induction w plan turn.settings.randomTickSpeed (batchOf w turn s).regions.toList s
    (Pool.minds_start w turn hnodup plan) fun pool hpool i => hpool.turn h i
  exact ⟨hend.told, hend.state, hend.homes⟩

theorem told_of_nobody {ev : Event C E} (h : ev.origin? = none) : ev.Told p := by
  rcases ev with _ | _ | _ | _
  · cases h
  · trivial
  · trivial
  · trivial

/-- So is the sweep. -/
theorem swept_minds (h : w.Rides riding fun _ => True) (hnodup : (w.tracked s).Nodup) (plan : Plan) (turn : Turn C) :
    let before := dismounts (dispatched w plan turn s).2.2.toList
    let events := (swept w plan turn s).2.events.toList
    (∀ ev ∈ events, ev.Told (riding s)) ∧
      riding (swept w plan turn s).2.state = (before ++ dismounts events).foldl Riding.dismount (riding s) := by
  intro before events
  obtain ⟨-, hstate, hhomes⟩ := dispatched_minds h hnodup plan turn
  have hunassigned : (batchOf w turn s).unassigned.toList = (w.tracked s).filter fun e => homeIn w turn s e = none :=
    buildBatch_unassigned
  have hminds := Program.sweep_minds (P := fun _ : Call C E => True) (p := riding s) (fun _ => trivial)
    turn.settings.randomTickSpeed (leftOver w plan turn s) (hunassigned ▸ hnodup.filter _)
  have hfresh : ∀ e ∈ (batchOf w turn s).unassigned.toList, e ∉ before := by
    intro e he hmem
    rw [hunassigned, List.mem_filter] at he
    exact hhomes e hmem (of_decide_eq_true he.2)
  obtain ⟨H, hevents, htold, hriding⟩ := Program.run_minds h .caller hminds hstate hfresh ∅ #[]
  have hH : events = H := hevents.trans (List.nil_append H)
  exact ⟨hH ▸ htold, hH ▸ hriding⟩

theorem tick_minds (h : w.Rides riding fun _ => True) (hnodup : (w.tracked s).Nodup) (plan : Plan) (turn : Turn C) :
    let events := (tick w true plan turn s).events.toList
    (∀ ev ∈ events, ev.Told (riding s)) ∧
      riding (tick w true plan turn s).state = (dismounts events).foldl Riding.dismount (riding s) := by
  intro events
  obtain ⟨htold, -, -⟩ := dispatched_minds h hnodup plan turn
  obtain ⟨htold', hriding⟩ := swept_minds h hnodup plan turn
  have hevents : events = beforeJoin w plan turn s ++ endLines w plan turn s := tick_regions.2
  refine ⟨fun ev hev => ?_, ?_⟩
  · rw [hevents, beforeJoin, List.mem_append, List.mem_append, List.mem_append] at hev
    rcases hev with ((hev | hev) | hev) | hev
    · exact htold ev hev
    · exact told_of_nobody (origin?_of_failureLines hev)
    · exact htold' ev hev
    · exact told_of_nobody (origin?_of_endLines hev)
  · have hfailures : dismounts (failureLines (C := C) (E := E) (dispatched w plan turn s).1) = [] :=
      List.filterMap_eq_nil_iff.mpr fun ev hev => dismounted?_of_nobody (origin?_of_failureLines hev)
    have hend : dismounts (endLines w plan turn s) = [] :=
      List.filterMap_eq_nil_iff.mpr fun ev hev => dismounted?_of_nobody (origin?_of_endLines hev)
    rw [state_tick, hriding, hevents, beforeJoin, dismounts_append, dismounts_append, dismounts_append, hfailures, hend,
      List.append_nil, List.append_nil]

theorem tick_rides_ok (h : w.Rides riding fun _ => True) (hnodup : (w.tracked s).Nodup) (plan : Plan) (turn : Turn C) :
    (tick w true plan turn s).summary = .ok (Summary.ofPhases w plan turn s) := by
  have hsettles := Program.sweep_told (swept_ends w plan turn s).1 (swept_minds h hnodup plan turn).1
  rw [tick_regions.1, hsettles.result]
  rfl

/-- Told by a riding, a tick settles all that its batch holds as the riding says, and takes off whom it says. -/
theorem Served.settles {speed : UInt32} {loaded : List C} {batch : Batch E} {outcomes : List Outcome}
    {events : List (Event C E)} (h : Served w plan speed loaded batch outcomes events)
    (hjobs : jobs batch.regions.toList = batch.numbered) (htold : ∀ ev ∈ events, ev.Told p) :
    (settlements events).Perm (batch.contents.map fun e => (e, p.verdict e)) ∧
      (dismounts events).Perm (batch.contents.filter fun e => p.verdict e = .ticked true) := by
  have hcaller : Program.Settles p batch.unassigned.toList (historyOf .caller events) (.ok ()) :=
    Program.sweep_told h.caller fun ev hev => htold ev (List.mem_of_mem_filter hev)
  have htask : ∀ job ∈ jobs batch.regions.toList, ∃ r,
      Program.Settles p job.1.entities.toList (historyOf (jobOrigin job) events) r := by
    intro job hjob
    obtain ⟨o, -, hserves⟩ := h.report hjob
    exact ⟨_, Program.regionTask_told hserves.ends fun ev hev => htold ev (List.mem_of_mem_filter hev)⟩
  refine ⟨?_, ?_⟩
  · exact h.perm_contents hjobs (g := List.map fun e => (e, p.verdict e)) rfl (fun _ _ => List.map_append)
      (fun _ => settled?_of_nobody) hcaller.settlements fun job hjob => (htask job hjob).choose_spec.settlements
  · exact h.perm_contents hjobs (g := List.filter fun e => p.verdict e = .ticked true) rfl
      (fun _ _ => List.filter_append ..) (fun _ => dismounted?_of_nobody) hcaller.dismounts
      fun job hjob => (htask job hjob).choose_spec.dismounts

/-- Offers one after another settle each entity as the riding at the beginning says, and take off whom it says. -/
theorem offerAll_rides (h : w.Rides riding Call.OfContract) (o : Origin) {entities : List E} (hnodup : entities.Nodup)
    (s : σ) :
    let ran := (Program.offerAll entities : Program C E Unit).run w o ⟨s, ∅, #[]⟩
    Program.Settles (riding s) entities ran.2.events.toList ran.1 ∧
      riding ran.2.state = (entities.filter fun e => (riding s).verdict e = .ticked true).foldl Riding.dismount (riding s) := by
  intro ran
  have hends := (Program.ends_of_run_nil w o (Program.offerAll entities) s).1
  have hminds := Program.offerAll_minds (p := riding s) (fun _ : Call C E => id) hnodup
  have hs : riding s = ([] : List E).foldl Riding.dismount (riding s) := rfl
  obtain ⟨H, hevents, htold, hriding⟩ := Program.run_minds h o hminds hs (fun _ _ => List.not_mem_nil) ∅ #[]
  have hH : ran.2.events.toList = H := hevents.trans (List.nil_append H)
  have hsettles := Program.offerAll_told hends (hH ▸ htold)
  refine ⟨hsettles, ?_⟩
  rw [← hsettles.dismounts]
  exact hH ▸ hriding

/-- Where contracts go by a riding, entities may be offered their ticks in any order: each is settled in the same way, and
the same riding is left.  The same comes of a tick, whoever offers them and however the turns fall, if look-ups and chunk
ticks return and leave the riding as it is. -/
theorem offers_anyOrder (w : World σ C E) (riding : σ → Riding E) (h : w.Rides riding Call.OfContract) :
    (∀ (o o' : Origin) (entities entities' : List E) (s : σ), entities.Nodup → entities'.Perm entities →
      let ran := (Program.offerAll entities : Program C E Unit).run w o ⟨s, ∅, #[]⟩
      let ran' := (Program.offerAll entities' : Program C E Unit).run w o' ⟨s, ∅, #[]⟩
      (ran.1 = .ok () ∧ ran'.1 = .ok ()) ∧
        settlements ran.2.events.toList = entities.map (fun e => (e, (riding s).verdict e)) ∧
        settlements ran'.2.events.toList = entities'.map (fun e => (e, (riding s).verdict e)) ∧
        riding ran'.2.state = riding ran.2.state) ∧
      (w.Rides riding (fun c => ¬ c.OfContract) → ∀ (plan : Plan) (turn : Turn C) (s : σ), (w.tracked s).Nodup →
        let result := tick w true plan turn s
        let off := (w.tracked s).filter fun e => (riding s).verdict e = .ticked true
        (∃ summary, result.summary = .ok summary) ∧
          (settlements result.events.toList).Perm ((w.tracked s).map fun e => (e, (riding s).verdict e)) ∧
          (dismounts result.events.toList).Perm off ∧
          riding result.state = off.foldl Riding.dismount (riding s)) := by
  refine ⟨fun o o' entities entities' s hnodup hperm => ?_, fun hchunks plan turn s hnodup => ?_⟩
  · obtain ⟨hsettles, hriding⟩ := offerAll_rides h o hnodup s
    obtain ⟨hsettles', hriding'⟩ := offerAll_rides h o' (hperm.nodup_iff.mpr hnodup) s
    refine ⟨⟨hsettles.result, hsettles'.result⟩, hsettles.settlements, hsettles'.settlements, ?_⟩
    rw [hriding, hriding']
    exact Riding.foldl_dismount_perm (hperm.filter _) (riding s)
  · intro result off
    have hall : w.Rides riding fun _ => True := by
      refine ⟨fun c _ => ?_, fun c _ => ?_, fun e _ => h.dismounts e trivial⟩
      · by_cases hc : c.OfContract
        · exact h.answers c hc
        · exact hchunks.answers c hc
      · by_cases hc : c.OfContract
        · exact h.keeps c hc
        · exact hchunks.keeps c hc
    have hok := tick_rides_ok hall hnodup plan turn
    obtain ⟨htold, hriding⟩ := tick_minds hall hnodup plan turn
    obtain ⟨hsettled, hoff⟩ := (tick_served hok).settles (jobs_batchOf w turn s) htold
    have hcontents : (batchOf w turn s).contents.Perm (w.tracked s) := buildBatch_contents
    have hdismounts : (dismounts result.events.toList).Perm off := hoff.trans (hcontents.filter _)
    refine ⟨⟨_, hok⟩, hsettled.trans (hcontents.map _), hdismounts, ?_⟩
    rw [hriding]
    exact Riding.foldl_dismount_perm hdismounts (riding s)

end Tick

/-- A world whose state is a riding.  Every call returns, and only stopping to ride changes it. -/
def World.ofRiding (entities : List Nat) : World (Riding Nat) Key Nat where
  answer c p :=
    match c with
    | .lookup k => (.ok (some k), p)
    | .tickChunk _ _ => (.ok (), p)
    | .isRemoved e => (.ok (p.removed e), p)
    | .isFrozen e => (.ok (p.frozen e), p)
    | .vehicle e => (.ok (p.vehicle e), p)
    | .hasPassenger v e => (.ok ((p.passengers v).contains e), p)
    | .stopRiding e => (.ok (), p.dismount e)
    | .checkDespawn _ => (.ok (), p)
    | .tickEntity _ => (.ok (), p)
  keyOf := id
  cellOf _ e := ⟨.ofNat (10 * e), 0⟩
  tracked _ := entities

theorem ofRiding_rides (entities : List Nat) (P : Call Key Nat → Prop) : (World.ofRiding entities).Rides id P := by
  refine ⟨fun c _ p => ?_, fun c _ hc p => ?_, fun _ _ _ => rfl⟩
  · cases c <;> exact ⟨_, rfl, by simp [Call.Told]⟩
  · cases c with
    | stopRiding e => cases hc
    | _ => rfl

/-- Riding in a circle: 0 rides 1, which does not list it; 1 rides 5, which is removed; and 5 rides 0. -/
def Riding.circle : Riding Nat where
  removed e := e == 5
  frozen _ := false
  vehicle e := if e = 0 then some 1 else if e = 1 then some 5 else if e = 5 then some 0 else none
  passengers v := if v = 0 then [5] else if v = 5 then [1, 7] else []

/-- 0 and 1 are in regions of their own and 5 is in none; whoever comes first, 0 and 1 are taken off. -/
theorem offers_anyOrder_circle :
    (World.ofRiding [0, 1, 5]).Rides id Call.OfContract ∧ (World.ofRiding [0, 1, 5]).Rides id (fun c => ¬ c.OfContract) ∧
      [0, 1, 5].Nodup ∧ [5, 1, 0].Perm [0, 1, 5] ∧
      settlements ((Program.offerAll [0, 1, 5] : Program Key Nat Unit).run (World.ofRiding [0, 1, 5]) .caller
        ⟨.circle, ∅, #[]⟩).2.events.toList = [(0, .ticked true), (1, .ticked true), (5, .removed)] ∧
      settlements ((Program.offerAll [5, 1, 0] : Program Key Nat Unit).run (World.ofRiding [0, 1, 5]) .caller
        ⟨.circle, ∅, #[]⟩).2.events.toList = [(5, .removed), (1, .ticked true), (0, .ticked true)] ∧
      (dismounts (tick (World.ofRiding [0, 1, 5]) true .backwards (.pair []) .circle).events.toList).Perm [0, 1] ∧
      (tick (World.ofRiding [0, 1, 5]) true .backwards (.pair []) .circle).state.passengers 5 = [7] := by
  have hnodup : [0, 1, 5].Nodup := by decide
  have hperm : [5, 1, 0].Perm [0, 1, 5] := by decide
  have hrides := ofRiding_rides [0, 1, 5]
  obtain ⟨hoffers, htick⟩ := offers_anyOrder (World.ofRiding [0, 1, 5]) id (hrides _)
  obtain ⟨-, hsettled, hsettled', -⟩ := hoffers .caller .caller [0, 1, 5] [5, 1, 0] .circle hnodup hperm
  obtain ⟨-, -, hoff, hstate⟩ := htick (hrides _) .backwards (.pair []) .circle hnodup
  refine ⟨hrides _, hrides _, hnodup, hperm, hsettled, hsettled', hoff, ?_⟩
  exact (congrArg (fun p : Riding Nat => p.passengers 5) hstate).trans (by decide)

end GridTick
