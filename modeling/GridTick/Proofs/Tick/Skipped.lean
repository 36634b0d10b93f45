import GridTick.Proofs.Tick.Accounts
import GridTick.Proofs.Tick.EntityCoverage
import GridTick.Proofs.Tick.Riding

/-!
# GridTick.Proofs.Tick.Skipped — whom the count of skipped entities counts

The task of a region offers its entities their ticks one after another, and a fault may come after some of their
contracts have returned.  All entities of such a region are counted as skipped, these among them.  So the count exceeds
the number of entities that went without by the number of contracts that returned in failed tasks.

* `settledEntities`: the entities whose contracts returned; `offerAll_settled`, `regionTask_settled`: they come first.
* `Served.settled_iff`: an entity is settled by the task of its own region or not at all.
* `failedEntities`, `wentWithout`, `settledInVain`: the entities of failed regions, and the two parts of them.
* `SkipCount`, `tick_skipped`: the count, and when it is that of the entities that went without.
-/

namespace GridTick

variable {σ C E : Type}

/-! ## Contracts that returned -/

/-- The entities whose contracts returned, in order. -/
def settledEntities (events : List (Event C E)) : List E := (settlements events).map Prod.fst

theorem settledEntities_append (H₁ H₂ : List (Event C E)) :
    settledEntities (H₁ ++ H₂) = settledEntities H₁ ++ settledEntities H₂ := by
  rw [settledEntities, settlements_append, List.map_append]
  rfl

theorem settledEntities_quiet {H : List (Event C E)} (h : ∀ ev ∈ H, ¬ ev.OfOffer) : settledEntities H = [] := by
  rw [settledEntities, (quiet_of_not_ofOffer h).1]
  rfl

namespace Program

variable {o : Origin} {H : List (Event C E)} {entities : List E}

theorem contract_settles {e : E} {r : Except Fault EntityTick} (h : Ends o (contract e) H r) :
    settledEntities H = [] := by
  have hnone : ∀ ev ∈ H, ev.settled? = none := by
    intro ev hev
    obtain ⟨c, a, rfl, -⟩ := h.asksOnly (contract_asksOnly e) ev hev
    rfl
  rw [settledEntities, settlements, List.filterMap_eq_nil_iff.mpr hnone]
  rfl

/-- Whoever is offered a tick is settled, unless the contract raises a fault. -/
theorem offer_settled {e : E} {r : Except Fault EntityTick} (h : Ends o (offer e) H r) :
    settledEntities H = if r.toOption.isSome then [e] else [] := by
  rw [offer, bind_eq] at h
  obtain ⟨H', rfl, hbody⟩ := h.note_inv
  rw [bind_eq] at hbody
  rcases hbody.bind_inv with ⟨result, H₁, H₂, rfl, h₁, h₂⟩ | ⟨fault, rfl, h₁⟩
  · rw [bind_eq] at h₂
    obtain ⟨H₃, rfl, h₃⟩ := h₂.note_inv
    obtain ⟨rfl, rfl⟩ := ends_done h₃
    show settledEntities (H₁ ++ [.marked o (.settled e result)]) = [e]
    rw [settledEntities_append, contract_settles h₁]
    rfl
  · show settledEntities H' = []
    exact contract_settles h₁

/-- Offers settle the entities from the first one on. -/
theorem offerAll_settled {r : Except Fault Unit} (h : Ends o (offerAll entities) H r) :
    settledEntities H <+: entities := by
  induction entities generalizing H with
  | nil =>
    obtain ⟨rfl, -⟩ := ends_done h
    exact List.prefix_rfl
  | cons e rest ih =>
    rw [offerAll, bind_eq] at h
    rcases h.bind_inv with ⟨result, H₁, H₂, rfl, h₁, h₂⟩ | ⟨fault, rfl, h₁⟩
    · rw [settledEntities_append, offer_settled h₁]
      exact (List.prefix_cons_inj e).mpr (ih h₂)
    · rw [offer_settled h₁]
      exact List.nil_prefix

theorem regionTask_settled {speed : UInt32} {keys : List Key} {r : Except Fault Unit}
    (h : Ends o (regionTask speed keys entities) H r) : settledEntities H <+: entities := by
  cases regionTask_ends h with
  | lookup pairs k rest fault hkeys =>
    rw [settledEntities_append, settledEntities_quiet fun _ => not_ofOffer_lookedUp]
    exact List.nil_prefix
  | tick pairs done p rest fault hkeys hhits =>
    rw [settledEntities_append, settledEntities_append, settledEntities_quiet fun _ => not_ofOffer_lookedUp,
      settledEntities_quiet fun _ => not_ofOffer_tickedUnder]
    exact List.nil_prefix
  | offer pairs O _ hkeys hoffers =>
    rw [settledEntities_append, settledEntities_append, settledEntities_quiet fun _ => not_ofOffer_lookedUp,
      settledEntities_quiet fun _ => not_ofOffer_tickedUnder]
    exact offerAll_settled hoffers

theorem sweep_settled {speed : UInt32} {chunks : List C} {r : Except Fault Unit}
    (h : Ends o (sweep speed chunks entities) H r) : settledEntities H <+: entities := by
  rw [sweep, bind_eq] at h
  rcases h.bind_inv with ⟨_, H₁, H₂, rfl, h₁, h₂⟩ | ⟨fault, rfl, h₁⟩
  · rw [settledEntities_append, settledEntities_quiet (not_ofOffer_tickAll h₁)]
    exact offerAll_settled h₂
  · rw [settledEntities_quiet (not_ofOffer_tickAll h₁)]
    exact List.nil_prefix

end Program

/-! ## Who settles whom -/

section Tick

variable {w : World σ C E} {plan : Plan} {speed : UInt32} {loaded : List C} {outcomes : List Outcome}
  {events : List (Event C E)} {cellOf : E → Cell} {tracked : List E} {agents : List Cell} {view : UInt32}

theorem Served.settled_isPrefix
    (h : Served w plan speed loaded (buildBatch cellOf tracked agents view) outcomes events) {o : Origin}
    (ho : o ∈ (buildBatch cellOf tracked agents view).origins) :
    settledEntities (historyOf o events) <+: tracked.filter fun e => goesTo cellOf agents view e = o.place? := by
  rcases Batch.mem_origins ho with rfl | ⟨i, r, hr, hjob, rfl⟩
  · have hstart := Program.sweep_settled h.caller
    rwa [buildBatch_unassigned] at hstart
  · obtain ⟨o, -, hserves⟩ := h.report hjob
    have hstart := Program.regionTask_settled hserves.ends
    rwa [buildBatch_entities hr] at hstart

/-- An entity that goes to the region of an origin is settled by that origin or not at all. -/
theorem Served.settled_iff (h : Served w plan speed loaded (buildBatch cellOf tracked agents view) outcomes events)
    {o : Origin} (ho : o ∈ (buildBatch cellOf tracked agents view).origins) {e : E}
    (he : goesTo cellOf agents view e = o.place?) :
    e ∈ settledEntities events ↔ e ∈ settledEntities (historyOf o events) := by
  have hperm : ((buildBatch cellOf tracked agents view).origins.flatMap fun o => settlements (historyOf o events)).Perm
      (settlements events) :=
    perm_filterMap_histories events (Batch.origins_nodup _) h.origins fun _ => settled?_of_nobody
  constructor
  · intro hmem
    obtain ⟨p, hp, rfl⟩ := List.mem_map.mp hmem
    obtain ⟨o', ho', hp⟩ := List.mem_flatMap.mp (hperm.mem_iff.mpr hp)
    have hown : p.1 ∈ settledEntities (historyOf o' events) := List.mem_map_of_mem hp
    have hgoes := of_decide_eq_true (List.mem_filter.mp ((h.settled_isPrefix ho').subset hown)).2
    rwa [Batch.origin_eq ho ho' (he.symm.trans hgoes)]
  · intro hmem
    obtain ⟨p, hp, rfl⟩ := List.mem_map.mp hmem
    exact List.mem_map_of_mem (hperm.mem_iff.mp (List.mem_flatMap.mpr ⟨o, ho, hp⟩))

end Tick

/-! ## The count -/

/-- The regions whose tasks failed, with their places. -/
def failedJobs (events : List (Event C E)) (batch : Batch E) : List (Region E × Nat) :=
  batch.numbered.filter fun job => (faultOf events job).isSome

def failedEntities (events : List (Event C E)) (batch : Batch E) : List E :=
  (failedJobs events batch).flatMap (·.1.entities.toList)

/-- The entities of failed regions for which no contract returned. -/
def wentWithout [DecidableEq E] (events : List (Event C E)) (batch : Batch E) : List E :=
  (failedEntities events batch).filter (· ∉ settledEntities events)

/-- The entities whose contracts returned in failed tasks. -/
def settledInVain (events : List (Event C E)) (batch : Batch E) : List E :=
  (failedJobs events batch).flatMap fun job => settledEntities (historyOf (jobOrigin job) events)

/-- What a summary says of skipped entities: it counts all entities of the regions that it counts as failed.  Of these,
the tasks had settled some from the first one on; if no entity is tracked twice, the count exceeds the number of the
others by just those. -/
structure SkipCount [DecidableEq E] (tracked : List E) (batch : Batch E) (events : List (Event C E))
    (summary : Summary) : Prop where
  failed : summary.failedRegions = (failedJobs events batch).length
  counted : summary.skippedEntities = (failedEntities events batch).length
  settled : ∀ job ∈ failedJobs events batch,
    settledEntities (historyOf (jobOrigin job) events) <+: job.1.entities.toList
  atLeast : (wentWithout events batch).length ≤ summary.skippedEntities
  excess : tracked.Nodup →
    summary.skippedEntities = (wentWithout events batch).length + (settledInVain events batch).length
  exact_iff : tracked.Nodup → (summary.skippedEntities = (wentWithout events batch).length ↔
    ∀ job ∈ failedJobs events batch, settledEntities (historyOf (jobOrigin job) events) = [])

section Count

variable [DecidableEq E]

/-- Without repeats, what follows a prefix is what is not in it. -/
theorem length_filter_of_isPrefix {l settled : List E} {p : E → Prop} [DecidablePred p] (hl : l.Nodup)
    (hstart : settled <+: l) (hp : ∀ e ∈ l, p e ↔ e ∈ settled) :
    l.length = (l.filter fun e => ¬ p e).length + settled.length := by
  obtain ⟨rest, rfl⟩ := hstart
  have hdisjoint := (List.nodup_append.mp hl).2.2
  have hsettled : settled.filter (fun e => ¬ p e) = [] := by
    refine List.filter_eq_nil_iff.mpr fun e he => ?_
    simp [(hp e (List.mem_append_left _ he)).mpr he]
  have hrest : rest.filter (fun e => ¬ p e) = rest := by
    refine List.filter_eq_self.mpr fun e he => ?_
    simp only [decide_eq_true_eq, hp e (List.mem_append_right _ he)]
    exact fun hmem => hdisjoint e hmem e he rfl
  rw [List.filter_append, hsettled, hrest, List.length_append, List.nil_append, Nat.add_comm]

variable {w : World σ C E} {plan : Plan} {turn : Turn C} {s : σ} {summary : Summary}

/-- The entities of one region: those that went without, and those that its own task settled. -/
theorem length_region (h : (tick w true plan turn s).summary = .ok summary) (hnodup : (w.tracked s).Nodup)
    {job : Region E × Nat} (hjob : job ∈ (batchOf w turn s).numbered) :
    let events := (tick w true plan turn s).events.toList
    job.1.entities.toList.length = (job.1.entities.toList.filter (· ∉ settledEntities events)).length +
      (settledEntities (historyOf (jobOrigin job) events)).length := by
  intro events
  have hserved := tick_served h
  have hr := Batch.mem_numbered.mp hjob
  have horigin : jobOrigin job ∈ (batchOf w turn s).origins :=
    List.mem_cons_of_mem _ (List.mem_map_of_mem (jobs_batchOf w turn s ▸ hjob))
  have hstart := hserved.settled_isPrefix horigin
  have hentities := buildBatch_entities hr
  have hgoes : ∀ e ∈ job.1.entities.toList, goesTo (w.cellOf s) turn.agents turn.settings.viewDistance e =
      (jobOrigin job).place? := by
    intro e he
    rw [hentities] at he
    exact of_decide_eq_true (List.mem_filter.mp he).2
  refine length_filter_of_isPrefix ?_ ?_ fun e he => hserved.settled_iff horigin (hgoes e he)
  · rw [hentities]
    exact hnodup.filter _
  · rw [hentities]
    exact hstart

theorem length_failedEntities (h : (tick w true plan turn s).summary = .ok summary) (hnodup : (w.tracked s).Nodup) :
    let events := (tick w true plan turn s).events.toList
    (failedEntities events (batchOf w turn s)).length =
      (wentWithout events (batchOf w turn s)).length + (settledInVain events (batchOf w turn s)).length := by
  intro events
  have hjobs : ∀ job ∈ failedJobs events (batchOf w turn s), job.1.entities.toList.length =
      (job.1.entities.toList.filter (· ∉ settledEntities events)).length +
        (settledEntities (historyOf (jobOrigin job) events)).length :=
    fun job hjob => length_region h hnodup (List.mem_of_mem_filter hjob)
  unfold wentWithout settledInVain failedEntities
  rw [List.filter_flatMap, List.length_flatMap, List.length_flatMap, List.length_flatMap, List.map_congr_left hjobs,
    List.sum_map_add]

end Count

/-- The skipped entities of every tick with regions that returns. -/
theorem tick_skipped [DecidableEq E] (w : World σ C E) (plan : Plan) (turn : Turn C) (s : σ) {summary : Summary}
    (h : (tick w true plan turn s).summary = .ok summary) :
    SkipCount (w.tracked s) (batchOf w turn s) (tick w true plan turn s).events.toList summary := by
  have hlength := length_failedEntities h
  have hserved := tick_served h
  obtain rfl := ofPhases_of_ok h
  have hcounted : (Summary.ofPhases w plan turn s).skippedEntities =
      (failedEntities (tick w true plan turn s).events.toList (batchOf w turn s)).length := by
    rw [ofPhases_eq]
    rfl
  refine ⟨?_, hcounted, fun job hjob => ?_, hcounted ▸ List.length_filter_le _ _,
    fun hnodup => hcounted.trans (hlength hnodup), fun hnodup => ?_⟩
  · rw [ofPhases_eq]
    rfl
  · have hmem : job ∈ jobs (batchOf w turn s).regions.toList :=
      jobs_batchOf w turn s ▸ List.mem_of_mem_filter hjob
    obtain ⟨report, -, hreport⟩ := hserved.report hmem
    exact Program.regionTask_settled hreport.ends
  · rw [hcounted, hlength hnodup, Nat.add_eq_left, List.length_eq_zero_iff]
    exact List.flatMap_eq_nil_iff

/-- A region that stumbles over its second entity, after the contract of the first has returned. -/
theorem tick_stumbles_late :
    let w := World.stumbling 25
    let turn := Turn.alone [Cell.key ⟨0, 0⟩]
    let events := (tick w true .inOrder turn 0).events.toList
    (tick w true .inOrder turn 0).summary = .ok ⟨1, 1, 9, 0, 0, 2, 1⟩ ∧
      wentWithout events (batchOf w turn 0) = [1] ∧ settledInVain events (batchOf w turn 0) = [0] := by
  intro w turn events
  have hdispatch := dispatch_alone 25
  simp only [events, w, turn, batchOf, tick, tickRegions, Turn.alone, World.stumbling, if_true] at hdispatch ⊢
  simp only [buildBatch_alone, hdispatch]
  decide +kernel

/-- Two entities are counted, one of which was settled. -/
theorem tick_skipped_stumbling :
    let w := World.stumbling 25
    let turn := Turn.alone [Cell.key ⟨0, 0⟩]
    let events := (tick w true .inOrder turn 0).events.toList
    (tick w true .inOrder turn 0).summary = .ok ⟨1, 1, 9, 0, 0, 2, 1⟩ ∧ [0, 1, 9].Nodup ∧
      SkipCount [0, 1, 9] (batchOf w turn 0) events ⟨1, 1, 9, 0, 0, 2, 1⟩ ∧
      2 = (wentWithout events (batchOf w turn 0)).length + (settledInVain events (batchOf w turn 0)).length := by
  intro w turn events
  obtain ⟨h, -, -⟩ := tick_stumbles_late
  have hnodup : [0, 1, 9].Nodup := by decide
  have hcount : SkipCount [0, 1, 9] (batchOf w turn 0) events ⟨1, 1, 9, 0, 0, 2, 1⟩ := tick_skipped w .inOrder turn 0 h
  exact ⟨h, hnodup, hcount, hcount.excess hnodup⟩

/-- The summary counts two skipped entities where only one went without. -/
theorem tick_skipped_overcounts :
    let w := World.stumbling 25
    let turn := Turn.alone [Cell.key ⟨0, 0⟩]
    let events := (tick w true .inOrder turn 0).events.toList
    ∃ summary, (tick w true .inOrder turn 0).summary = .ok summary ∧
      wentWithout events (batchOf w turn 0) = [1] ∧
        summary.skippedEntities ≠ (wentWithout events (batchOf w turn 0)).length := by
  intro w turn events
  obtain ⟨h, hwithout, -⟩ := tick_stumbles_late
  refine ⟨_, h, hwithout, ?_⟩
  rw [hwithout]
  decide

end GridTick
