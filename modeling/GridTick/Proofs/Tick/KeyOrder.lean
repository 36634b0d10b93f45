import GridTick.Proofs.Tick.Commuting
import GridTick.Proofs.Tick.Isolation

/-!
# GridTick.Proofs.Tick.KeyOrder — the order in which a region lists its keys

A region looks up its keys, ticks the chunks that it finds and offers its entities their ticks.  If look-ups commute with
one another, chunk ticks too, and none of them faults, the keys may come in any order: the same chunks are ticked, the
same keys noted, and the entities are offered their ticks in states that are alike.

* `World.Steadfast`, `World.Reorders`: what is asked of look-ups and of chunk ticks.
* `World.lookUps`, `World.lookUps_perm`: what look-ups find, and that their order makes no difference.
* `afterTicks_perm`: the same for the state after chunk ticks.
* `regionTask_perm`: the task of a region.
* `drain_enumerate`: the tasks of a batch, one after another.
-/

namespace GridTick

variable {σ C E : Type}

/-- Look-ups and chunk ticks return, and chunk ticks commute with one another. -/
structure World.Steadfast (w : World σ C E) (alike : σ → σ → Prop) : Prop where
  finds : ∀ k s, ∃ chunk, (w.answer (.lookup k) s).1 = .ok chunk
  ticks : ∀ c speed s, (w.answer (.tickChunk c speed) s).1 = .ok ()
  chunks : ∀ c c' speed, w.Commutes alike (.tickChunk c speed) (.tickChunk c' speed)

/-- Look-ups of different keys commute as well: none changes what another finds. -/
structure World.Reorders (w : World σ C E) (alike : σ → σ → Prop) : Prop extends w.Steadfast alike where
  lookups : ∀ k k', k ≠ k' → w.Commutes alike (.lookup k) (.lookup k')

/-! ## Look-ups -/

/-- The chunk that an answer to a look-up holds, with its key. -/
def hit (k : Key) : Except Fault (Option C) → List (Key × C)
  | .ok (some c) => [(k, c)]
  | .ok none => []
  | .error _ => []

/-- What look-ups in order find, and the state that they leave. -/
def World.lookUps (w : World σ C E) : List Key → σ → List (Key × C) × σ
  | [], s => ([], s)
  | k :: rest, s =>
    let next := w.lookUps rest (w.answer (.lookup k) s).2
    (hit k (w.answer (.lookup k) s).1 ++ next.1, next.2)

section LookUps

variable {w : World σ C E} {alike : σ → σ → Prop} {s s' : σ}

theorem World.lookUps_alike (hw : w.Respects alike) (keys : List Key) (hs : alike s s') :
    (w.lookUps keys s).1 = (w.lookUps keys s').1 ∧ alike (w.lookUps keys s).2 (w.lookUps keys s').2 := by
  induction keys generalizing s s' with
  | nil => exact ⟨rfl, hs⟩
  | cons k rest ih =>
    obtain ⟨hfound, hstate⟩ := ih (hw.state (.lookup k) s s' hs)
    refine ⟨?_, hstate⟩
    rw [lookUps, lookUps, hw.answer (.lookup k) s s' hs, hfound]

/-- The order of look-ups changes neither what they find nor the state that they leave. -/
theorem World.lookUps_perm (hw : w.Respects alike) (hr : w.Reorders alike) {keys keys' : List Key}
    (hkeys : keys.Perm keys') (hnodup : keys.Nodup) (hs : alike s s') :
    (w.lookUps keys s).1.Perm (w.lookUps keys' s').1 ∧ alike (w.lookUps keys s).2 (w.lookUps keys' s').2 := by
  induction hkeys generalizing s s' with
  | nil => exact ⟨List.Perm.refl _, hs⟩
  | @cons k l l' _ ih =>
    obtain ⟨hfound, hstate⟩ := ih (List.nodup_cons.mp hnodup).2 (hw.state (.lookup k) s s' hs)
    refine ⟨?_, hstate⟩
    rw [lookUps, lookUps, hw.answer (.lookup k) s s' hs]
    exact hfound.append_left _
  | swap k k' l =>
    have hne : k' ≠ k := fun heq => (List.nodup_cons.mp hnodup).1 (heq ▸ List.mem_cons_self ..)
    have hcomm := hr.lookups k' k hne
    -- both look-ups answer as they do from `s` alone, whichever is made first
    have halike : alike (w.answer (.lookup k) (w.answer (.lookup k') s).2).2
        (w.answer (.lookup k') (w.answer (.lookup k) s').2).2 :=
      hw.trans (hcomm.state s) (hw.state _ _ _ (hw.state _ _ _ hs))
    obtain ⟨hfound, hstate⟩ := lookUps_alike hw l halike
    refine ⟨?_, hstate⟩
    simp only [lookUps]
    rw [hfound, hcomm.second, hcomm.first, hw.answer (.lookup k) s s' hs, hw.answer (.lookup k') s s' hs,
      ← List.append_assoc, ← List.append_assoc]
    exact List.perm_append_comm.append_right _
  | trans hkeys _ ih ih' =>
    obtain ⟨hfound, hstate⟩ := ih hnodup (hw.refl s)
    obtain ⟨hfound', hstate'⟩ := ih' (hkeys.nodup_iff.mp hnodup) hs
    exact ⟨hfound.trans hfound', hw.trans hstate hstate'⟩

/-- Look-ups that return find what they find and leave nothing but themselves. -/
theorem run_resolve (hr : w.Steadfast alike) (o : Origin) (keys : List Key) (found : List (Key × C)) (t : Trail σ C E) :
    ∃ H : List (Event C E), (∀ e ∈ H, ¬ e.OfOffer) ∧
      (Program.resolve keys found : Program C E _).run w o t = (.ok (found.reverse ++ (w.lookUps keys t.state).1),
        ⟨(w.lookUps keys t.state).2, t.recorded, t.events ++ H.toArray⟩) := by
  induction keys generalizing found t with
  | nil => exact ⟨[], by simp, by simp [Program.resolve, Program.run, World.lookUps]⟩
  | cons k rest ih =>
    obtain ⟨s, recorded, events⟩ := t
    obtain ⟨chunk, hchunk⟩ := hr.finds k s
    rcases hans : w.answer (.lookup k) s with ⟨answer, s'⟩
    rw [hans] at hchunk
    obtain rfl : answer = .ok chunk := hchunk
    let first : Event C E := .called o (.lookup k) (.ok chunk)
    cases chunk with
    | none =>
      obtain ⟨H, hH, hrun⟩ := ih found ⟨s', recorded, events.push first⟩
      refine ⟨first :: H, List.forall_mem_cons.mpr ⟨id, hH⟩, ?_⟩
      simp only [Program.resolve, Program.call, Program.bind_eq, Program.ask_bind, Program.done_bind, Program.run, hans]
      rw [hrun]
      simp [World.lookUps, hans, hit, first]
    | some c =>
      obtain ⟨H, hH, hrun⟩ := ih ((k, c) :: found) ⟨s', recorded, events.push first⟩
      refine ⟨first :: H, List.forall_mem_cons.mpr ⟨id, hH⟩, ?_⟩
      simp only [Program.resolve, Program.call, Program.bind_eq, Program.ask_bind, Program.done_bind, Program.run, hans]
      rw [hrun]
      simp [World.lookUps, hans, hit, first]

end LookUps

/-! ## Chunk ticks -/

section Ticks

variable {w : World σ C E} {alike : σ → σ → Prop} {s s' : σ}

theorem afterTicks_alike (hw : w.Respects alike) (speed : UInt32) (chunks : List C) (hs : alike s s') :
    alike (afterTicks w speed chunks s) (afterTicks w speed chunks s') := by
  induction chunks generalizing s s' with
  | nil => exact hs
  | cons c rest ih => exact ih (hw.state (.tickChunk c speed) s s' hs)

theorem afterTicks_perm (hw : w.Respects alike) (hr : w.Steadfast alike) (speed : UInt32) {chunks chunks' : List C}
    (hchunks : chunks.Perm chunks') (hs : alike s s') :
    alike (afterTicks w speed chunks s) (afterTicks w speed chunks' s') := by
  induction hchunks generalizing s s' with
  | nil => exact hs
  | cons c _ ih => exact ih (hw.state (.tickChunk c speed) s s' hs)
  | swap c c' l =>
    refine afterTicks_alike hw speed l ?_
    exact hw.trans ((hr.chunks c' c speed).state s) (hw.state _ _ _ (hw.state _ _ _ hs))
  | trans _ _ ih ih' => exact hw.trans (ih (hw.refl s)) (ih' hs)

/-- Ticks that return tick every chunk that was found, and note its key. -/
theorem run_tickFound (hr : w.Steadfast alike) (o : Origin) (speed : UInt32) (found : List (Key × C)) (t : Trail σ C E) :
    let H := found.flatMap (Event.tickedUnder o speed)
    (Program.tickFound speed found : Program C E Unit).run w o t = (.ok (),
      ⟨afterTicks w speed (found.map Prod.snd) t.state, recordedKeys t.recorded H, t.events ++ H.toArray⟩) := by
  induction found generalizing t with
  | nil => simp [Program.tickFound, Program.run, afterTicks, recordedKeys]
  | cons p rest ih =>
    obtain ⟨s, recorded, events⟩ := t
    have hticks := hr.ticks p.2 speed s
    rcases hans : w.answer (.tickChunk p.2 speed) s with ⟨answer, s'⟩
    rw [hans] at hticks
    obtain rfl : answer = .ok () := hticks
    simp only [Program.tickFound, Program.call, Program.note, Program.bind_eq, Program.ask_bind, Program.mark_bind,
      Program.done_bind, Program.run, hans]
    rw [ih]
    simp [afterTicks, hans, Event.tickedUnder, recordedKeys, Event.record]

theorem recordedKeys_perm {o : Origin} {speed : UInt32} {found found' : List (Key × C)} (h : found.Perm found')
    (keys : KeySet) : recordedKeys keys (found.flatMap (Event.tickedUnder (E := E) o speed)) =
      recordedKeys keys (found'.flatMap (Event.tickedUnder (E := E) o speed)) := by
  refine Std.ExtTreeSet.ext_mem fun k => ?_
  simp only [mem_recordedKeys, marked_mem_tickedUnder, (h.map Prod.fst).mem_iff]

end Ticks

/-! ## The task of a region -/

section Task

variable {w : World σ C E} {alike : σ → σ → Prop} {s s' : σ}

/-- Two runs that end the same way with the same keys noted and the same offers, in states that are alike. -/
structure SameOffers (alike : σ → σ → Prop) (x y : Except Fault Unit × Trail σ C E) : Prop where
  result : x.1 = y.1
  recorded : x.2.recorded = y.2.recorded
  offers : x.2.events.toList.filter (fun e => e.OfOffer) = y.2.events.toList.filter fun e => e.OfOffer
  state : alike x.2.state y.2.state

/-- What the task of a region comes to if its look-ups and its chunk ticks return: its offers, after all of them. -/
theorem run_regionTask (hr : w.Steadfast alike) (o : Origin) (speed : UInt32) (keys : List Key) (entities : List E)
    (s : σ) :
    let found := (w.lookUps keys s).1
    let offers := (Program.offerAll entities : Program C E Unit).run w o
      ⟨afterTicks w speed (found.map Prod.snd) (w.lookUps keys s).2,
        recordedKeys ∅ (found.flatMap (Event.tickedUnder (E := E) o speed)), #[]⟩
    SameOffers Eq ((Program.regionTask speed keys entities : Program C E Unit).run w o ⟨s, ∅, #[]⟩) offers := by
  intro found offers
  obtain ⟨H, hH, hresolve⟩ := run_resolve hr o keys [] ⟨s, ∅, #[]⟩
  rw [Program.regionTask, Program.bind_eq, Program.run_bind, hresolve]
  simp only [Program.bind_eq, Program.run_bind, List.reverse_nil, List.nil_append]
  rw [run_tickFound hr]
  dsimp only
  rw [Program.run_from]
  refine ⟨rfl, rfl, ?_, rfl⟩
  have hnone : (H ++ found.flatMap (Event.tickedUnder (E := E) o speed)).filter (fun e => e.OfOffer) = [] := by
    refine List.filter_eq_nil_iff.mpr fun e he => ?_
    rw [decide_eq_true_eq]
    exact (List.mem_append.mp he).elim (hH e) not_ofOffer_tickedUnder
  simp only [Array.empty_append, Array.toList_append]
  rw [List.filter_append, hnone, List.nil_append]

/-- The order of its keys makes no difference to the task of a region. -/
theorem regionTask_perm (hw : w.Respects alike) (hr : w.Reorders alike) (o : Origin) (speed : UInt32)
    {keys keys' : List Key} (hkeys : keys.Perm keys') (hnodup : keys.Nodup) (entities : List E) (hs : alike s s') :
    SameOffers alike ((Program.regionTask speed keys entities : Program C E Unit).run w o ⟨s, ∅, #[]⟩)
      ((Program.regionTask speed keys' entities : Program C E Unit).run w o ⟨s', ∅, #[]⟩) := by
  obtain ⟨hfound, hlooked⟩ := World.lookUps_perm hw hr hkeys hnodup hs
  have hticked := afterTicks_perm hw hr.toSteadfast speed (hfound.map Prod.snd) hlooked
  have hsame := Program.run_alike hw o (Program.offerAll entities) hticked
    (recordedKeys ∅ ((w.lookUps keys s).1.flatMap (Event.tickedUnder (E := E) o speed))) #[]
  obtain ⟨hresult, hrecorded, hoffers, hstate⟩ :=
    run_regionTask hr.toSteadfast o speed keys entities s
  obtain ⟨hresult', hrecorded', hoffers', hstate'⟩ :=
    run_regionTask hr.toSteadfast o speed keys' entities s'
  rw [← recordedKeys_perm hfound] at hresult' hrecorded' hoffers' hstate'
  refine ⟨?_, ?_, ?_, ?_⟩
  · rw [hresult, hresult', hsame.result]
  · rw [hrecorded, hrecorded', hsame.recorded]
  · rw [hoffers, hoffers', hsame.events]
  · rw [hstate, hstate']
    exact hsame.state

end Task

/-! ## The tasks of a batch -/

section Batch

variable {w : World σ C E} {alike : σ → σ → Prop} {s s' : σ}

theorem offersOf_finish (w : World σ C E) (t : Task C E) (s : σ) (o : Origin) : offersOf o (t.finish w s #[]).2.2.toList =
    if o = t.origin then (t.finish w s #[]).2.2.toList.filter (fun e => e.OfOffer) else [] := by
  have horigin : ∀ e ∈ (t.finish w s #[]).2.2.toList, e.origin? = some t.origin := by
    intro e he
    have hdrain : (Pool.drain w [t] s #[]).2.2 = (t.finish w s #[]).2.2 := by simp [Pool.drain]
    obtain ⟨u, hu, horigin⟩ := Pool.drain_origins w [t] s e (hdrain ▸ he)
    rwa [List.mem_singleton.mp hu] at horigin
  by_cases ho : o = t.origin
  · rw [if_pos ho, offersOf, ho, historyOf_self horigin]
  · rw [if_neg ho, offersOf, historyOf_other horigin ho]
    rfl

theorem finish_enumerate (hw : w.Respects alike) (hr : w.Reorders alike) (plan plan' : Plan) (speed : UInt32)
    (r : Region E) (place : Nat) (hs : alike s s') :
    let ended := (Task.ofRegion plan speed r place).finish w s #[]
    let ended' := (Task.ofRegion plan' speed r place).finish w s' #[]
    ended.1 = ended'.1 ∧ alike ended.2.1 ended'.2.1 ∧ ∀ o, offersOf o ended.2.2.toList = offersOf o ended'.2.2.toList := by
  have hkeys : (plan.enumerate r.id r.chunks).Perm (plan'.enumerate r.id r.chunks) :=
    (plan.enumerate_perm r.id r.chunks).trans (plan'.enumerate_perm r.id r.chunks).symm
  have hnodup : (plan.enumerate r.id r.chunks).Nodup :=
    (plan.enumerate_perm r.id r.chunks).nodup_iff.mpr (KeySet.nodup_toList _)
  obtain ⟨hresult, hrecorded, hoffers, hstate⟩ := regionTask_perm hw hr (.task place r.id) speed hkeys hnodup
    r.entities.toList hs
  refine ⟨?_, ?_, fun o => ?_⟩
  · rw [Task.finish_eq, Task.finish_eq]
    simp only [Task.report, Task.ofRegion, Task.origin, Stage.finish, hresult, hrecorded]
  · rw [Task.finish_eq, Task.finish_eq]
    exact hstate
  · rw [offersOf_finish, offersOf_finish, Task.finish_eq, Task.finish_eq]
    exact congrArg (fun H => if o = .task place r.id then H else []) hoffers

/-- Whichever way regions list their keys, their tasks come to the same one after another. -/
theorem drain_enumerate (hw : w.Respects alike) (hr : w.Reorders alike) (plan plan' : Plan) (speed : UInt32)
    (regions : List (Region E × Nat)) (hs : alike s s') :
    SameWork alike
      (Pool.drain w (regions.map fun (r, place) => Task.ofRegion plan speed r place) s #[])
      (Pool.drain w (regions.map fun (r, place) => Task.ofRegion plan' speed r place) s' #[]) := by
  induction regions generalizing s s' with
  | nil => exact ⟨List.Perm.refl _, hs, fun _ => rfl⟩
  | cons job rest ih =>
    obtain ⟨hvalue, hstate, hoffers⟩ := finish_enumerate hw hr plan plan' speed job.1 job.2 hs
    have hrest := ih hstate
    simp only [List.map_cons, Pool.drain]
    rw [Pool.drain_from, Pool.drain_from w _ _ ((Task.ofRegion plan' speed job.1 job.2).finish w s' #[]).2.2, hvalue]
    refine ⟨hrest.outcomes.cons _, hrest.state, fun o => ?_⟩
    simp only [Array.toList_append, offersOf_append, hoffers, hrest.offers]

end Batch

end GridTick
