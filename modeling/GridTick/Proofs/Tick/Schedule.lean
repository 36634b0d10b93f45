import GridTick.Proofs.Tick.KeyOrder

/-!
# GridTick.Proofs.Tick.Schedule — what a tick leaves open makes no difference

A `Plan` says in which order each region lists its keys and how the tasks take turns, their reports included.  If the
calls made for different regions do not get in each other's way, look-ups and chunk ticks return, and these commute, then
two plans lead to the same tick: the same outcomes and summary, the same log, the same offers in each region, and the
same calls by the calling thread.  The contracts of entities may fault all the same.

That look-ups commute is needed: if one evicts the chunk of another, the order of the keys shows.  That regions have
different numbers is needed for the order of outcomes and lines: equal ones stay in the order of their arrival.

* `Orderless`: what is asked of the world.
* `dispatched_sameWork`: the dispatch.
* `leftOver_eq`, `swept_same`: the sweep.
* `SameTick`, `tick_orderless`: the tick.
* `World.beside`: worlds side by side, one for each part of a batch.
* `dispatch_arrivals`: reports of one number stay in the order of their arrival.
* `World.evicting`, `Batch.oneNumber`, `order_shows`: look-ups that interfere, and regions of one number.
-/

namespace GridTick

variable {σ C E : Type}

/-- Calls for different regions are independent.  Look-ups and chunk ticks return, look-ups commute with one another, and
so do chunk ticks. -/
structure Orderless (w : World σ C E) (batch : Batch E) (alike : σ → σ → Prop) : Prop
    extends Independent w batch alike, w.Reorders alike

theorem SameWork.symm {alike : σ → σ → Prop} {x y : List Outcome × σ × Array (Event C E)} (hxy : SameWork alike x y)
    (h : ∀ {a b}, alike a b → alike b a) : SameWork alike y x :=
  ⟨hxy.outcomes.symm, h hxy.state, fun o => (hxy.offers o).symm⟩

section Dispatch

variable {w : World σ C E} {alike : σ → σ → Prop} {turn : Turn C} {s : σ}

theorem Pool.orderly_start (w : World σ C E) (batch : Batch E) (plan : Plan) (speed : UInt32) (s : σ) :
    (Pool.start plan speed batch.regions.toList s).Orderly w batch := by
  refine ⟨?_, fun t ht => ?_⟩
  · rw [Pool.start_places]
    exact jobs_nodup batch.regions.toList
  · obtain ⟨job, hjob, rfl⟩ := List.mem_map.mp ht
    exact jobProgram_asks w plan speed hjob

/-- Two plans lead to the same dispatch. -/
theorem dispatched_sameWork (h : Orderless w (batchOf w turn s) alike) (plan plan' : Plan) :
    SameWork alike (dispatched w plan turn s) (dispatched w plan' turn s) := by
  let batch := batchOf w turn s
  let speed := turn.settings.randomTickSpeed
  let start (plan : Plan) : Pool σ C E := Pool.start plan speed batch.regions.toList s
  have hw := h.respects
  -- turns first: each plan comes to what its tasks come to one after another
  have hturns : ∀ plan, SameWork alike (Pool.run w [] (start plan)) (Pool.run w plan.turns (start plan)) := fun plan =>
    Pool.run_turns h.toIndependent (Pool.orderly_start w batch plan speed s) plan.turns
  have hkeys : SameWork alike (Pool.run w [] (start plan)) (Pool.run w [] (start plan')) :=
    drain_enumerate hw h.toReorders plan plan' speed (jobs batch.regions.toList) (hw.refl s)
  have hruns : SameWork alike (Pool.run w plan.turns (start plan)) (Pool.run w plan'.turns (start plan')) :=
    ((hturns plan).symm @hw.symm).trans @hw.trans (hkeys.trans @hw.trans (hturns plan'))
  have hsort : ∀ plan, (dispatched w plan turn s).1.Perm (Pool.run w plan.turns (start plan)).1 := fun plan =>
    List.mergeSort_perm _ _
  exact ⟨(hsort plan).trans (hruns.outcomes.trans (hsort plan').symm), hruns.state, hruns.offers⟩

end Dispatch

section Tick

variable {w : World σ C E} {alike : σ → σ → Prop} {plan plan' : Plan} {turn : Turn C} {s : σ}

theorem leftOver_eq (h : (dispatched w plan turn s).1.Perm (dispatched w plan' turn s).1) :
    leftOver w plan turn s = leftOver w plan' turn s := by
  rw [leftOver, leftOver, leftover_eq_filter, leftover_eq_filter]
  refine List.filter_congr fun c _ => ?_
  simp only [mem_ticked, h.mem_iff]

theorem swept_same (h : Orderless w (batchOf w turn s) alike) (plan plan' : Plan) :
    SameRun alike (swept w plan turn s) (swept w plan' turn s) := by
  have hwork := dispatched_sameWork h plan plan'
  rw [swept, swept, leftOver_eq hwork.outcomes]
  exact Program.run_alike h.respects .caller _ hwork.state ∅ #[]

theorem ofPhases_perm (h : (dispatched w plan turn s).1.Perm (dispatched w plan' turn s).1) :
    Summary.ofPhases w plan turn s = Summary.ofPhases w plan' turn s := by
  rw [Summary.ofPhases, Summary.ofPhases, Summary.foldl_add_perm h, leftOver_eq h]

/-- Two ticks that come to the same: the same reports and the same summary, or the same fault; the same offers by each
task, with all answers; the same calls by the calling thread; and states that are alike. -/
structure SameTick (alike : σ → σ → Prop) (outcomes outcomes' : List Outcome) (result result' : TickResult σ C E) :
    Prop where
  outcomes : outcomes.Perm outcomes'
  summary : result.summary = result'.summary
  offers : ∀ place region, offersOf (.task place region) result.events.toList =
    offersOf (.task place region) result'.events.toList
  caller : historyOf .caller result.events.toList = historyOf .caller result'.events.toList
  state : alike result.state result'.state

/-- Fewer than `2^32` agents make regions of different numbers. -/
theorem regionNumbers_nodup (hlen : turn.agents.length < UInt32.size) :
    ((batchOf w turn s).regions.toList.map (·.id.number)).Nodup := by
  rw [← Batch.numbered_map_fst, List.map_map]
  exact List.pairwise_map.mpr ((numbered_pairwise hlen).imp UInt32.ne_of_lt)

/-- Two plans lead to the same tick.  With fewer than `2^32` agents the outcomes come in the same order, and so do the
lines of the log. -/
theorem tick_orderless (w : World σ C E) (alike : σ → σ → Prop) (plan plan' : Plan) (turn : Turn C) (s : σ)
    (h : Orderless w (batchOf w turn s) alike) :
    let outcomes := (dispatched w plan turn s).1
    let outcomes' := (dispatched w plan' turn s).1
    let result := tick w true plan turn s
    let result' := tick w true plan' turn s
    SameTick alike outcomes outcomes' result result' ∧
      (turn.agents.length < UInt32.size → outcomes = outcomes' ∧ notices result.events = notices result'.events) := by
  intro outcomes outcomes' result result'
  have hwork := dispatched_sameWork h plan plan'
  have hswept := swept_same h plan plan'
  refine ⟨⟨hwork.outcomes, ?_, fun place region => ?_, ?_, ?_⟩, fun hlen => ?_⟩
  · rw [tick_regions.1, tick_regions.1, hswept.result, ofPhases_perm hwork.outcomes]
  · rw [offersOf, offersOf, historyOf_task, historyOf_task]
    exact hwork.offers (.task place region)
  · rw [historyOf_caller, historyOf_caller, hswept.events]
  · rw [state_tick, state_tick]
    exact hswept.state
  · have houtcomes : outcomes = outcomes' := by
      refine Outcome.eq_of_perm hwork.outcomes ?_ dispatched_sorted dispatched_sorted
      rw [(dispatched_perm.map _).nodup_iff, List.map_map]
      have hnumbers := regionNumbers_nodup (w := w) (s := s) hlen
      rw [← Batch.numbered_map_fst, List.map_map] at hnumbers
      exact hnumbers
    refine ⟨houtcomes, ?_⟩
    have hend : endLines w plan turn s = endLines w plan' turn s := by rw [endLines, endLines, hswept.result]
    rw [notices_tick, notices_tick, hend]
    exact congrArg (fun l => l.filterMap Outcome.notice? ++ _) houtcomes

end Tick

/-! ## Worlds side by side, one for each part -/

/-- A world for each part of the batch, side by side. -/
def World.beside (w : Option Nat → World Nat Key Nat) : World (Option Nat → Nat) Key Nat :=
  { World.sideBySide fun _ => 0 with
    answer := fun c s =>
      let a := (w c.part).answer c (s c.part)
      (a.1, Function.update s c.part a.2) }

/-- Look-ups find chunks under their own keys, and nothing rides. -/
structure World.Plain (w : World Nat Key Nat) : Prop where
  finds : ∀ k c s, (w.answer (.lookup k) s).1 = .ok (some c) → k = c
  rides : ∀ e v s, (w.answer (.vehicle e) s).1 ≠ .ok (some v)

section Beside

variable {w : Option Nat → World Nat Key Nat}

theorem beside_separated (h : ∀ p, (w p).Plain) : Separated (.beside w) .pair fun p s => s p := by
  have hpart : ∀ {p : Option Nat} {c : Call Key Nat}, (World.beside w).AsksFor .pair p c → c.part = p := fun hc =>
    Call.part_of_asksFor (w := .beside w) rfl (fun k c s => (h _).finds k c _) (fun e v s => (h _).rides e v _) hc
  refine ⟨fun p c hc s s' hview => ?_, fun p c hc q hq s => ?_⟩
  · obtain rfl := hpart hc
    simp only [World.beside, Function.update_self, hview]
    exact ⟨trivial, trivial⟩
  · obtain rfl := hpart hc
    exact Function.update_of_ne hq _ _

theorem beside_independent (h : ∀ p, (w p).Plain) : Independent (.beside w) .pair fun s s' => ∀ p, s p = s' p := by
  refine ⟨⟨fun _ _ => rfl, fun hab hbc p => (hab p).trans (hbc p), fun hab p => (hab p).symm, ?_, ?_⟩, ?_⟩
  · intro c s s' h
    rw [funext h]
  · intro c s s' h p
    rw [funext h]
  · exact fun i j hij c c' => (beside_separated h).commutes fun heq => hij (Option.some.inj heq)

/-- Calls that commute in the world of every part commute side by side. -/
theorem beside_commutes {c c' : Call Key Nat} (h : ∀ p, (w p).Commutes Eq c c') :
    (World.beside w).Commutes (fun s s' => ∀ p, s p = s' p) c c' := by
  by_cases hpart : c.part = c'.part
  · have hcomm := h c'.part
    refine ⟨fun s => ?_, fun s => ?_, fun s p => ?_⟩
    · simpa only [World.beside, hpart, Function.update_self] using hcomm.first _
    · simpa only [World.beside, hpart, Function.update_self] using hcomm.second _
    · simp only [World.beside, hpart, Function.update_self, Function.update_idem, hcomm.state]
  · refine ⟨fun s => ?_, fun s => ?_, fun s p => ?_⟩
    · simp only [World.beside, Function.update_of_ne hpart]
    · simp only [World.beside, Function.update_of_ne (Ne.symm hpart)]
    · simp only [World.beside, Function.update_of_ne hpart, Function.update_of_ne (Ne.symm hpart)]
      rw [Function.update_comm hpart]

theorem beside_steadfast (h : ∀ p, (w p).Steadfast Eq) : (World.beside w).Steadfast fun s s' => ∀ p, s p = s' p :=
  ⟨fun k _ => (h _).finds k _, fun c speed _ => (h _).ticks c speed _,
    fun c c' speed => beside_commutes fun p => (h p).chunks c c' speed⟩

theorem batchOf_beside (loaded : List Key) (s : Option Nat → Nat) : batchOf (.beside w) (.pair loaded) s = .pair :=
  batchOf_pair (fun _ => 0) loaded s

theorem dispatched_beside (plan : Plan) (hplan : plan.turns = []) (loaded : List Key) (s : Option Nat → Nat) :
    let a := (Task.ofRegion plan 3 ⟨.ofPlace 0, keysAround 0, #[0]⟩ 0 : Task Key Nat).finish (.beside w) s #[]
    let b := (Task.ofRegion plan 3 ⟨.ofPlace 1, keysAround 10, #[1]⟩ 1 : Task Key Nat).finish (.beside w) a.2.1 a.2.2
    dispatched (.beside w) plan (.pair loaded) s = ([a.1, b.1], b.2) := by
  rw [dispatched, batchOf_beside]
  exact dispatch_pair _ hplan 3 (by decide +kernel) (by decide +kernel) (by decide) _

end Beside

/-! ## Worlds whose chunks hold -/

/-- Look-ups and chunk ticks return.  Only contracts of entities stumble, at the call `n`; look-ups do not count. -/
def World.firm (n : Nat) : World Nat Key Nat :=
  { World.stumbling n with
    answer := fun c s =>
      match c with
      | .lookup k => (.ok (some k), s)
      | .tickChunk _ _ => (.ok (), s + 1)
      | c => (World.stumbling n).answer c s }

/-- Keys backwards, and the second task before the first most of the time. -/
def Plan.backwards : Plan :=
  ⟨fun _ keys => keys.toList.reverse, fun _ _ => List.reverse_perm _, [1, 1, 0, 1, 1, 1, 0, 1, 1, 1, 1, 1]⟩

theorem firm_plain (n : Nat) : (World.firm n).Plain := by
  refine ⟨fun k c s hc => ?_, fun e v s hv => ?_⟩
  · simpa [World.firm] using hc
  · by_cases hs : s = n
    · simp [World.firm, World.stumbling, hs] at hv
    · simp [World.firm, World.stumbling, hs] at hv

theorem firm_reorders (n : Nat) : (World.firm n).Reorders Eq :=
  ⟨⟨fun k _ => ⟨some k, rfl⟩, fun _ _ _ => rfl, fun _ _ _ => ⟨fun _ => rfl, fun _ => rfl, fun _ => rfl⟩⟩,
    fun _ _ _ => ⟨fun _ => rfl, fun _ => rfl, fun _ => rfl⟩⟩

/-- The contract of the entity in the first region stumbles at its second call. -/
def World.stumblingContract : World (Option Nat → Nat) Key Nat := .beside fun p => .firm (if p = some 0 then 10 else 99)

/-- Two agents, and two loaded chunks of which the first agent sees one. -/
def Turn.pairLoaded : Turn Key := .pair [Cell.key ⟨0, 0⟩, Cell.key ⟨40, 0⟩]

/-- Backwards, the tick comes to the same. -/
theorem tick_orderless_backwards :
    let w := World.stumblingContract
    let start : Option Nat → Nat := fun _ => 0
    Orderless w (batchOf w .pairLoaded start) (fun s s' => ∀ p, s p = s' p) ∧
      Turn.pairLoaded.agents.length < UInt32.size ∧
      (tick w true .inOrder .pairLoaded start).summary = .ok ⟨2, 1, 18, 1, 1, 1, 1⟩ ∧
      (tick w true .backwards .pairLoaded start).summary = .ok ⟨2, 1, 18, 1, 1, 1, 1⟩ ∧
      (dispatched w .inOrder .pairLoaded start).1 = (dispatched w .backwards .pairLoaded start).1 ∧
      notices (tick w true .inOrder .pairLoaded start).events =
        notices (tick w true .backwards .pairLoaded start).events := by
  intro w start
  have horderless : Orderless w (batchOf w .pairLoaded start) fun s s' => ∀ p, s p = s' p := by
    rw [show batchOf w .pairLoaded start = .pair from batchOf_beside _ _]
    exact ⟨beside_independent fun _ => firm_plain _, beside_steadfast fun _ => (firm_reorders _).toSteadfast,
      fun k k' hne => beside_commutes fun _ => (firm_reorders _).lookups k k' hne⟩
  obtain ⟨hsame, hordered⟩ := tick_orderless w (fun s s' => ∀ p, s p = s' p) .inOrder .backwards .pairLoaded start
    horderless
  have hsummary : (tick w true .inOrder .pairLoaded start).summary = .ok ⟨2, 1, 18, 1, 1, 1, 1⟩ := by
    rw [tick_regions.1]
    simp only [w, World.stumblingContract, Turn.pairLoaded, swept, leftOver, Summary.ofPhases, batchOf_beside,
      dispatched_beside .inOrder rfl]
    decide +kernel
  obtain ⟨houtcomes, hnotices⟩ := hordered (by decide)
  exact ⟨horderless, by decide, hsummary, hsame.summary ▸ hsummary, houtcomes, hnotices⟩

/-! ## Where the order shows -/

section Evicting

/-- The first look-up finds its chunk and evicts all others. -/
def World.evicting : World Nat Key Nat :=
  { World.firm 99 with
    answer := fun c s =>
      match c with
      | .lookup k => (.ok (if s = 0 then some k else none), s + 1)
      | c => (World.firm 99).answer c s }

/-- Nothing changes, and nothing stumbles. -/
def World.still : World Unit Key Nat where
  answer c s := (((World.stumbling 0).answer c 1).1, s)
  keyOf := id
  cellOf _ e := ⟨.ofNat (10 * e), 0⟩
  tracked _ := [0, 1]

/-- Keys backwards, and one task after another. -/
def Plan.keysBackwards : Plan := ⟨fun _ keys => keys.toList.reverse, fun _ _ => List.reverse_perm _, []⟩

/-- Keys in their own order, and the second task before the first. -/
def Plan.secondFirst : Plan := { Plan.inOrder with turns := List.replicate 60 1 }

/-- Regions at places `2^32` apart: both have the number `0`. -/
def Batch.oneNumber : Batch Nat :=
  ⟨#[⟨.ofPlace 0, keysAround 0, #[0]⟩, ⟨.ofPlace UInt32.size, keysAround 10, #[]⟩], #[]⟩

theorem evicting_plain : World.evicting.Plain := by
  refine ⟨fun k c s hc => ?_, (firm_plain 99).rides⟩
  by_cases hs : s = 0
  · simpa [World.evicting, hs] using hc
  · simp [World.evicting, hs] at hc

theorem evicting_steadfast : World.evicting.Steadfast Eq :=
  ⟨fun _ _ => ⟨_, rfl⟩, fun _ _ _ => rfl, fun _ _ _ => ⟨fun _ => rfl, fun _ => rfl, fun _ => rfl⟩⟩

theorem still_commutes (c c' : Call Key Nat) : World.still.Commutes Eq c c' :=
  ⟨fun _ => rfl, fun _ => rfl, fun _ => rfl⟩

theorem still_orderless (batch : Batch Nat) : Orderless .still batch Eq := by
  have hrespects : World.still.Respects Eq :=
    ⟨fun _ => rfl, Eq.trans, Eq.symm, fun _ _ _ _ => rfl, fun _ _ _ h => h⟩
  exact ⟨⟨hrespects, fun _ _ _ c c' _ _ => still_commutes c c'⟩,
    ⟨fun k _ => ⟨some k, rfl⟩, fun _ _ _ => rfl, fun _ _ _ => still_commutes _ _⟩, fun _ _ _ => still_commutes _ _⟩

/-- Reports that arrive in the order of their numbers stay as they are, equal numbers among them. -/
theorem dispatch_arrivals {w : World σ C E} {plan : Plan} {speed : UInt32} {regions : List (Region E)} {s : σ}
    (h : (Pool.run w plan.turns (.start plan speed regions s)).1.Pairwise (·.region.number ≤ ·.region.number)) :
    (dispatch w plan speed regions s #[]).1 = (Pool.run w plan.turns (.start plan speed regions s)).1 :=
  List.mergeSort_of_pairwise (h.imp fun hle => decide_eq_true hle)

/-- The order shows where look-ups evict chunks, be all else as it should, and where regions have the same number. -/
theorem order_shows :
    let w := World.beside fun _ => .evicting
    let start : Option Nat → Nat := fun _ => 0
    let regions := Batch.oneNumber.regions.toList
    ((Separated w (batchOf w .pairLoaded start) fun p s => s p) ∧
        Independent w (batchOf w .pairLoaded start) (fun s s' => ∀ p, s p = s' p) ∧
        w.Steadfast (fun s s' => ∀ p, s p = s' p) ∧
        (tick w true .inOrder .pairLoaded start).summary = .ok ⟨2, 0, 2, 1, 2, 0, 1⟩ ∧
        (tick w true .keysBackwards .pairLoaded start).summary = .ok ⟨2, 0, 2, 2, 2, 0, 1⟩) ∧
      Orderless .still Batch.oneNumber Eq ∧
        (dispatch World.still .inOrder 3 regions () #[]).1.map (fun o => (o.region.number, o.entities)) =
          [(0, 1), (0, 0)] ∧
        (dispatch World.still .secondFirst 3 regions () #[]).1.map (fun o => (o.region.number, o.entities)) =
          [(0, 0), (0, 1)] := by
  intro w start regions
  have hbatch : batchOf w .pairLoaded start = .pair := batchOf_beside _ _
  rw [hbatch]
  refine ⟨⟨beside_separated fun _ => evicting_plain, beside_independent fun _ => evicting_plain,
    beside_steadfast fun _ => evicting_steadfast, ?_, ?_⟩, still_orderless _, ?_, ?_⟩
  · rw [tick_regions.1]
    simp only [w, Turn.pairLoaded, swept, leftOver, Summary.ofPhases, batchOf_beside,
      dispatched_beside .inOrder rfl]
    decide +kernel
  · rw [tick_regions.1]
    simp only [w, Turn.pairLoaded, swept, leftOver, Summary.ofPhases, batchOf_beside,
      dispatched_beside .keysBackwards rfl]
    decide +kernel
  · rw [dispatch_arrivals (by decide +kernel)]
    decide +kernel
  · rw [dispatch_arrivals (by decide +kernel)]
    decide +kernel

end Evicting

end GridTick
