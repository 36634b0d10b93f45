import GridTick.Proofs.Tick.Batch
import GridTick.Proofs.Tick.Histories

/-!
# GridTick.Proofs.Tick.Prefixes — how far the task of a region gets

Three loops feed one another: the look-ups find the chunks, the chunk ticks go through what was found, and the offers
wait for the last chunk.  A fault stops the task within one of them.  What it leaves then is the start of what it would
have left, and the keys that it noted are those of the chunk ticks that returned.

* `Event.asked?`, `Event.found?`, `Event.begun?`: what single events say about look-ups and chunk ticks.
* `PrefixLaw`: the three parts of a task's history, and how each depends on the one before.
* `PrefixLaw.of_lookup`, `of_tick`, `of_offer`: it holds wherever the task stops.
* `regionTask_prefixes`: of a task on its own, and of every task of a batch whose tasks take turns.
-/

namespace GridTick

variable {σ C E : Type}

/-! ## Look-ups and chunk ticks in a history -/

namespace Event

/-- The key of a look-up, returned or not. -/
def asked? : Event C E → Option Key
  | .called _ (.lookup k) _ => some k
  | _ => none

/-- A chunk that a look-up found, with its key. -/
def found? : Event C E → Option (Key × C)
  | .called _ (.lookup k) (.ok chunk) => chunk.map (k, ·)
  | _ => none

/-- The chunk of a tick, returned or not. -/
def begun? : Event C E → Option C
  | .called _ (.tickChunk c _) _ => some c
  | _ => none

/-- A look-up. -/
def OfLookup : Event C E → Prop
  | .called _ (.lookup _) _ => True
  | _ => False

/-- A chunk tick, or the note of its key. -/
def OfChunk : Event C E → Prop
  | .called _ (.tickChunk _ _) _ => True
  | .marked _ (.recorded _) => True
  | _ => False

end Event

/-- How far the task of a region gets with its keys and entities: its look-ups, its chunk ticks and its offers, the keys
that it leaves noted, and how it ends. -/
structure PrefixLaw (o : Origin) (speed : UInt32) (keys : List Key) (entities : List E)
    (looks ticks offers : List (Event C E)) (ticked : KeySet) (r : Except Fault Unit) : Prop where
  ofLookups : ∀ ev ∈ looks, ev.OfLookup
  ofChunks : ∀ ev ∈ ticks, ev.OfChunk
  ofOffers : ∀ ev ∈ offers, ev.OfOffer
  asked : looks.filterMap Event.asked? <+: keys
  askedAll : (∀ ev ∈ looks, ev.fault? = none) → looks.filterMap Event.asked? = keys
  /-- Nothing follows a look-up that raised a fault, and no key is noted. -/
  failedLookup : (∃ ev ∈ looks, ev.fault? ≠ none) → ticks = [] ∧ offers = [] ∧ ∀ k, k ∉ ticked
  begun : ticks.filterMap Event.begun? <+: (looks.filterMap Event.found?).map Prod.snd
  /-- The chunk ticks that returned, and the keys noted for them; before the first offer they are all of them. -/
  completed : ∃ done, done <+: looks.filterMap Event.found? ∧
    ticks.filterMap Event.chunkTick? = done.map (fun p => (o.lane, p.2, speed)) ∧
    (∀ k, k ∈ ticked ↔ k ∈ done.map Prod.fst) ∧
    (offers ≠ [] ∨ r = .ok () → done = looks.filterMap Event.found?)
  offersPrefix : offered offers <+: entities
  /-- The offers stand one after another, and each makes the calls of its entity's contract. -/
  contracts : ∃ parts : List (E × List (Event C E)), parts.map Prod.fst = offered offers ∧
    offers = parts.flatMap Prod.snd ∧ ∀ p ∈ parts, ∃ r', Program.Ends o (Program.offer p.1) p.2 r'
  offersAll : r = .ok () → offered offers = entities
  /-- A fault that stops the task is that of its last call. -/
  stopped : ∀ fault, r = .error fault →
    ∃ H c, looks ++ ticks ++ offers = H ++ [.called o c (.error fault)] ∧ ∀ ev ∈ H, ev.fault? = none
  faultless : r = .ok () → ∀ ev ∈ looks ++ ticks ++ offers, ev.fault? = none

section

variable {o : Origin} {speed : UInt32} {keys : List Key} {entities : List E} {H : List (Event C E)}
  {r : Except Fault Unit}

theorem filterMap_asked?_lookedUp (pairs : List (Key × Option C)) :
    (pairs.map (Event.lookedUp (E := E) o)).filterMap Event.asked? = pairs.map Prod.fst := by
  rw [List.filterMap_map, ← List.filterMap_eq_map]
  rfl

theorem filterMap_found?_lookedUp (pairs : List (Key × Option C)) :
    (pairs.map (Event.lookedUp (E := E) o)).filterMap Event.found? = hits pairs := by
  rw [List.filterMap_map]
  rfl

theorem ofLookup_lookedUp (pairs : List (Key × Option C)) :
    ∀ ev ∈ pairs.map (Event.lookedUp (E := E) o), ev.OfLookup := by
  intro ev hev
  obtain ⟨p, -, rfl⟩ := List.mem_map.mp hev
  exact trivial

/-- Look-ups that returned raised no fault. -/
theorem fault?_lookedUp (pairs : List (Key × Option C)) :
    ¬ ∃ ev ∈ pairs.map (Event.lookedUp (E := E) o), ev.fault? ≠ none := by
  rintro ⟨ev, hev, hne⟩
  obtain ⟨p, -, rfl⟩ := List.mem_map.mp hev
  exact hne rfl

theorem filterMap_begun?_tickedUnder (done : List (Key × C)) :
    (done.flatMap (Event.tickedUnder (E := E) o speed)).filterMap Event.begun? = done.map Prod.snd := by
  induction done with
  | nil => rfl
  | cons p rest ih =>
    rw [List.flatMap_cons, List.filterMap_append, ih]
    rfl

theorem ofChunk_tickedUnder (done : List (Key × C)) :
    ∀ ev ∈ done.flatMap (Event.tickedUnder (E := E) o speed), ev.OfChunk := by
  intro ev hev
  obtain ⟨p, -, hev⟩ := List.mem_flatMap.mp hev
  rcases List.mem_cons.mp hev with rfl | hev
  · exact trivial
  · obtain rfl := List.mem_singleton.mp hev
    exact trivial

/-- Look-ups and chunk ticks note the keys of the chunk ticks that returned, and so do offers after them. -/
theorem mem_recordedKeys_ticked {pairs : List (Key × Option C)} {done : List (Key × C)} {last : List (Event C E)}
    (hlast : ∀ o k, (.marked o (.recorded k) : Event C E) ∉ last) (k : Key) :
    k ∈ recordedKeys ∅ (pairs.map (Event.lookedUp o) ++ (done.flatMap (Event.tickedUnder o speed) ++ last)) ↔
      k ∈ done.map Prod.fst := by
  simp only [mem_recordedKeys, List.mem_append, marked_mem_tickedUnder, hlast]
  simp [Event.lookedUp]

/-- Offers stand one after another in the history. -/
theorem offerAll_parts (h : Program.Ends o (Program.offerAll entities) H r) :
    ∃ parts : List (E × List (Event C E)), parts.map Prod.fst = offered H ∧ H = parts.flatMap Prod.snd ∧
      ∀ p ∈ parts, ∃ r', Program.Ends o (Program.offer p.1) p.2 r' := by
  induction entities generalizing H with
  | nil =>
    obtain ⟨rfl, -⟩ := Program.ends_done h
    exact ⟨[], rfl, rfl, by simp⟩
  | cons e rest ih =>
    rw [Program.offerAll, Program.bind_eq] at h
    rcases h.bind_inv with ⟨result, H₁, H₂, rfl, h₁, h₂⟩ | ⟨fault, rfl, h₁⟩
    · obtain ⟨parts, hoffered, rfl, hparts⟩ := ih h₂
      refine ⟨(e, H₁) :: parts, ?_, rfl, ?_⟩
      · rw [offered_append, (Program.offer_ends h₁).2.1, ← hoffered]
        rfl
      · rintro p (_ | ⟨_, hp⟩)
        · exact ⟨_, h₁⟩
        · exact hparts p hp
    · refine ⟨[(e, H)], (Program.offer_ends h₁).2.1.symm, by simp, ?_⟩
      rintro p (_ | ⟨_, ⟨⟩⟩)
      exact ⟨_, h₁⟩

/-! ## The law, wherever the task stops -/

namespace PrefixLaw

variable {looks ticks offers : List (Event C E)} {pairs : List (Key × Option C)} {fault : Fault}

/-- A task that a look-up stops. -/
theorem of_lookup {k : Key} {rest : List Key} (hkeys : keys = pairs.map Prod.fst ++ k :: rest)
    (hlooks : looks = pairs.map (Event.lookedUp o) ++ [.called o (.lookup k) (.error fault)])
    (hends : Program.Ends o (Program.regionTask speed keys entities) looks (.error fault)) :
    PrefixLaw o speed keys entities looks [] [] (recordedKeys ∅ looks) (.error fault) := by
  have hasked : looks.filterMap Event.asked? = pairs.map Prod.fst ++ [k] := by
    rw [hlooks, List.filterMap_append, filterMap_asked?_lookedUp]
    rfl
  have hnone : ∀ k, k ∉ recordedKeys ∅ looks := by
    intro k' hk'
    rw [hlooks, mem_recordedKeys] at hk'
    simp [Event.lookedUp] at hk'
  have hlast : (.called o (.lookup k) (.error fault) : Event C E) ∈ looks := by simp [hlooks]
  refine ⟨?_, by simp, by simp, ?_, ?_, fun _ => ⟨rfl, rfl, hnone⟩, List.nil_prefix, ?_, List.nil_prefix,
    ⟨[], rfl, rfl, by simp⟩, by simp, ?_, by simp⟩
  · intro ev hev
    rw [hlooks] at hev
    rcases List.mem_append.mp hev with hev | hev
    · exact ofLookup_lookedUp pairs ev hev
    · obtain rfl := List.mem_singleton.mp hev
      exact trivial
  · rw [hasked, hkeys]
    exact ⟨rest, by simp⟩
  · intro hreturned
    cases hreturned _ hlast
  · exact ⟨[], List.nil_prefix, rfl, by simpa using hnone, by simp⟩
  · rintro _ ⟨rfl⟩
    simpa using hends.fault_last

/-- A task that a chunk tick stops. -/
theorem of_tick {done rest : List (Key × C)} {p : Key × C} (hkeys : pairs.map Prod.fst = keys)
    (hhits : hits pairs = done ++ p :: rest)
    (hticks : ticks = done.flatMap (Event.tickedUnder o speed) ++ [.called o (.tickChunk p.2 speed) (.error fault)])
    (hends : Program.Ends o (Program.regionTask speed keys entities) (pairs.map (Event.lookedUp o) ++ ticks)
      (.error fault)) :
    PrefixLaw o speed keys entities (pairs.map (Event.lookedUp o)) ticks []
      (recordedKeys ∅ (pairs.map (Event.lookedUp o) ++ ticks)) (.error fault) := by
  have hfound := filterMap_found?_lookedUp (E := E) (o := o) pairs
  have hasked : (pairs.map (Event.lookedUp (E := E) o)).filterMap Event.asked? = keys :=
    (filterMap_asked?_lookedUp pairs).trans hkeys
  refine ⟨ofLookup_lookedUp pairs, ?_, by simp, hasked ▸ List.prefix_rfl, fun _ => hasked,
    fun h => (fault?_lookedUp pairs h).elim, ?_, ⟨done, ?_, ?_, ?_, by simp⟩, List.nil_prefix,
    ⟨[], rfl, rfl, by simp⟩, by simp, ?_, by simp⟩
  · intro ev hev
    rw [hticks] at hev
    rcases List.mem_append.mp hev with hev | hev
    · exact ofChunk_tickedUnder done ev hev
    · obtain rfl := List.mem_singleton.mp hev
      exact trivial
  · rw [hfound, hhits, hticks, List.filterMap_append, filterMap_begun?_tickedUnder]
    exact ⟨rest.map Prod.snd, by simp [Event.begun?]⟩
  · rw [hfound, hhits]
    exact List.prefix_append _ _
  · rw [hticks, List.filterMap_append, filterMap_chunkTick?_tickedUnder]
    simp [Event.chunkTick?]
  · intro k
    rw [hticks]
    exact mem_recordedKeys_ticked (by simp) k
  · rintro _ ⟨rfl⟩
    simpa using hends.fault_last

/-- A task that gets as far as its offers. -/
theorem of_offer (hkeys : pairs.map Prod.fst = keys) (hoffers : Program.Ends o (Program.offerAll entities) offers r)
    (hends : Program.Ends o (Program.regionTask speed keys entities)
      (pairs.map (Event.lookedUp o) ++ (hits pairs).flatMap (Event.tickedUnder o speed) ++ offers) r) :
    PrefixLaw o speed keys entities (pairs.map (Event.lookedUp o)) ((hits pairs).flatMap (Event.tickedUnder o speed))
      offers
      (recordedKeys ∅ (pairs.map (Event.lookedUp o) ++ (hits pairs).flatMap (Event.tickedUnder o speed) ++ offers)) r := by
  obtain ⟨hof, hserved⟩ := Program.offerAll_ends hoffers
  have hfound := filterMap_found?_lookedUp (E := E) (o := o) pairs
  have hasked : (pairs.map (Event.lookedUp (E := E) o)).filterMap Event.asked? = keys :=
    (filterMap_asked?_lookedUp pairs).trans hkeys
  refine ⟨ofLookup_lookedUp pairs, ofChunk_tickedUnder _, hof, hasked ▸ List.prefix_rfl,
    fun _ => hasked, fun h => (fault?_lookedUp pairs h).elim, ?_, ⟨hits pairs, ?_, ?_, ?_, fun _ => hfound.symm⟩, ?_,
    offerAll_parts hoffers, ?_, ?_, ?_⟩
  · rw [hfound, filterMap_begun?_tickedUnder]
  · exact hfound ▸ List.prefix_rfl
  · exact filterMap_chunkTick?_tickedUnder _
  · intro k
    rw [List.append_assoc]
    exact mem_recordedKeys_ticked (fun _ _ hmem => hof _ hmem) k
  · rcases hserved with ⟨-, hall⟩ | ⟨H₁, e, rest, H₂, fault, -, hentities, hsplit, hcontract⟩
    · exact hall ▸ List.prefix_rfl
    · rw [hsplit, offered_upTo (Program.contract_ends hcontract).2, hentities]
      exact ⟨rest, by simp⟩
  · intro hr
    rcases hserved with ⟨-, hall⟩ | ⟨H₁, e, rest, H₂, fault, hr', -⟩
    · exact hall
    · cases hr.symm.trans hr'
  · rintro fault rfl
    exact hends.fault_last
  · rintro rfl
    exact hends.fault_free

/-- What the task of a region may leave keeps the law. -/
theorem of_ends (h : Program.Ends o (Program.regionTask speed keys entities) H r) :
    ∃ looks ticks offers, H = looks ++ ticks ++ offers ∧
      PrefixLaw o speed keys entities looks ticks offers (recordedKeys ∅ H) r := by
  cases Program.regionTask_ends h with
  | lookup pairs k rest fault hkeys => exact ⟨_, [], [], by simp, of_lookup hkeys rfl h⟩
  | tick pairs done p rest fault hkeys hhits => exact ⟨_, _, [], by simp, of_tick hkeys hhits rfl h⟩
  | offer pairs O _ hkeys hoffers =>
    rw [← List.append_assoc] at h ⊢
    exact ⟨_, _, O, rfl, of_offer hkeys hoffers h⟩

end PrefixLaw

end

/-- The task of a region, run on its own with its keys in any order, and every task of a batch, whichever way the tasks
take turns: what it leaves in the history, and the keys it leaves noted, keep the law.  In a batch that a tick builds,
regions have their entities in tracking order. -/
theorem regionTask_prefixes (w : World σ C E) (speed : UInt32) :
    (∀ (o : Origin) (keys : List Key) (entities : List E) (s : σ),
      let ran := (Program.regionTask speed keys entities).run w o ⟨s, ∅, #[]⟩
      ∃ looks ticks offers, ran.2.events.toList = looks ++ ticks ++ offers ∧
        PrefixLaw o speed keys entities looks ticks offers ran.2.recorded ran.1) ∧
    (∀ (plan : Plan) (regions : List (Region E)) (s : σ), ∀ job ∈ jobs regions,
      let ran := dispatch w plan speed regions s #[]
      ∃ report ∈ ran.1, report.place = job.2 ∧ report.region = job.1.id ∧
        ∃ looks ticks offers, historyOf (jobOrigin job) ran.2.2.toList = looks ++ ticks ++ offers ∧
          PrefixLaw (jobOrigin job) speed (plan.enumerate job.1.id job.1.chunks) job.1.entities.toList
            looks ticks offers report.chunks (endOf report.fault)) ∧
    ∀ (turn : Turn C) (s : σ), ∀ r ∈ (batchOf w turn s).regions.toList, r.entities.toList.Sublist (w.tracked s) := by
  refine ⟨fun o keys entities s => ?_, fun plan regions s job hjob => ?_, fun turn s r hr => ?_⟩
  · obtain ⟨H, hext, hends⟩ := Program.ends_of_run w o (Program.regionTask speed keys entities) ⟨s, ∅, #[]⟩
    obtain ⟨looks, ticks, offers, hsplit, hlaw⟩ := PrefixLaw.of_ends hends
    refine ⟨looks, ticks, offers, ?_, ?_⟩
    · rw [hext.events, hsplit]
      rfl
    · rw [hext.recorded]
      exact hlaw
  · have hserves := dispatch_serves w plan speed regions s
    have hplaces : ((dispatch w plan speed regions s #[]).1.map Outcome.place).Perm ((jobs regions).map Prod.snd) :=
      hserves.places
    obtain ⟨report, hreport, htold⟩ := exists_report hplaces hserves.reports hjob
    obtain ⟨looks, ticks, offers, hsplit, hlaw⟩ := PrefixLaw.of_ends htold.ends
    refine ⟨report, hreport, htold.place, htold.region, looks, ticks, offers, hsplit, ?_⟩
    rw [htold.chunks]
    exact hlaw
  · obtain ⟨i, hi⟩ := List.mem_iff_getElem?.mp hr
    rw [Array.getElem?_toList] at hi
    rw [buildBatch_entities hi]
    exact List.filter_sublist

/-- The third chunk tick raises a fault: two keys are noted. -/
theorem regionTask_prefixes_stumbling :
    let ran := dispatch (World.stumbling 11) .inOrder 3 [.alone] 0 #[]
    (Region.alone, 0) ∈ jobs [.alone] ∧
      ran.1.map (fun report => (report.chunks.size, report.fault)) = [(2, some (.text "stumbled"))] ∧
      ∃ report ∈ ran.1, ∃ looks ticks offers,
        historyOf (jobOrigin (Region.alone, 0)) ran.2.2.toList = looks ++ ticks ++ offers ∧
          PrefixLaw (jobOrigin (Region.alone, 0)) 3 Region.alone.chunks.toList [0, 1] looks ticks offers report.chunks
            (endOf report.fault) := by
  intro ran
  have hjob : (Region.alone, 0) ∈ jobs [.alone] := mem_jobs.mpr ⟨rfl, by decide +kernel⟩
  have hreports : ran.1.map (fun report => (report.chunks.size, report.fault)) = [(2, some (.text "stumbled"))] := by
    simp only [ran, dispatch_alone 11]
    decide +kernel
  obtain ⟨report, hreport, -, -, looks, ticks, offers, hlaw⟩ :=
    (regionTask_prefixes (World.stumbling 11) 3).2.1 .inOrder [.alone] 0 (.alone, 0) hjob
  exact ⟨hjob, hreports, report, hreport, looks, ticks, offers, hlaw⟩

end GridTick
