import Mathlib.Algebra.BigOperators.Group.Finset.Piecewise
import Mathlib.Data.UInt
import GridTick.Proofs.Tick.Terms
import GridTick.Proofs.Synthetic.Herd
import GridTick.Synthetic.World

/-!
# GridTick.Proofs.Synthetic.Totals — what the totals of a made-up world count

The totals over the chunks are added up from what the loaded chunks count.  A chunk that is unloaded takes its counts
with it, and starts again from zero when it is loaded again.

* `ChunkTable.total`: a figure added up over a table; `total_modify`, `total_insert`, `total_filter` say what changes it.
* `countingTerms`, `total_tick`: each chunk tick of a tick is counted once.
* `Lived`: what may happen to a world from its beginning on.
* `stats_running`: the totals are all that was counted, less what was unloaded.
-/

namespace GridTick.Synthetic

/-! ## Sums over a table -/

namespace ChunkTable

/-- What a chunk counts in a figure; nothing if it is not loaded. -/
def count (chunks : ChunkTable) (figure : Counters → UInt64) (k : Key) : UInt64 :=
  figure (chunks[k]?.getD .zero)

/-- A figure added up over the loaded chunks. -/
def total (chunks : ChunkTable) (figure : Counters → UInt64) : UInt64 :=
  ∑ k ∈ chunks.keys.toFinset, count chunks figure k

variable {chunks : ChunkTable} {figure : Counters → UInt64} {k : Key}

theorem mem_keySet : k ∈ chunks.keys.toFinset ↔ k ∈ chunks := by
  rw [List.mem_toFinset, Std.ExtTreeMap.mem_keys]

theorem total_eq_sum (chunks : ChunkTable) (figure : Counters → UInt64) :
    total chunks figure = (chunks.toList.map fun p => figure p.2).sum := by
  rw [total, List.sum_toFinset _ Std.ExtTreeMap.nodup_keys, ← Std.ExtTreeMap.map_fst_toList_eq_keys, List.map_map]
  congr 1
  refine List.map_congr_left fun p hp => ?_
  have hget : chunks[p.1]? = some p.2 := Std.ExtTreeMap.mem_toList_iff_getElem?_eq_some.mp hp
  simp [count, hget]

theorem foldl_counters (l : List (Key × Counters)) (a b : UInt64) :
    l.foldl (fun (sum : UInt64 × UInt64) p => (sum.1 + p.2.ticks, sum.2 + p.2.randomTicks)) (a, b) =
      (a + (l.map fun p => p.2.ticks).sum, b + (l.map fun p => p.2.randomTicks).sum) := by
  induction l generalizing a b with
  | nil => simp
  | cons p rest ih => simp [ih, add_assoc]

/-- A chunk that counts adds what it counts. -/
theorem total_modify {change : Counters → Counters} {gain : UInt64} (hk : k ∈ chunks)
    (hgain : ∀ c, figure (change c) = figure c + gain) :
    total (chunks.modify k change) figure = total chunks figure + gain := by
  have hkeys : (chunks.modify k change).keys.toFinset = chunks.keys.toFinset := by
    ext k'
    rw [mem_keySet, mem_keySet, Std.ExtTreeMap.mem_modify]
  have hcount : ∀ k' ∈ chunks.keys.toFinset,
      count (chunks.modify k change) figure k' = count chunks figure k' + if k = k' then gain else 0 := by
    intro k' hk'
    rw [count, count, Std.ExtTreeMap.getElem?_modify]
    by_cases heq : k = k'
    · subst heq
      obtain ⟨c, hc⟩ : ∃ c, chunks[k]? = some c := ⟨chunks[k], by simp⟩
      simp [hc, hgain]
    · simp [heq, Std.LawfulEqCmp.compare_eq_iff_eq]
  rw [total, hkeys, Finset.sum_congr rfl hcount, Finset.sum_add_distrib, Finset.sum_ite_eq,
    if_pos (mem_keySet.mpr hk), total]

/-- A chunk that is loaded counts nothing yet. -/
theorem total_insert (hfigure : figure .zero = 0) (hk : k ∉ chunks) :
    total (chunks.insert k .zero) figure = total chunks figure := by
  have hkeys : (chunks.insert k .zero).keys.toFinset = insert k chunks.keys.toFinset := by
    ext k'
    rw [mem_keySet, Finset.mem_insert, mem_keySet, Std.ExtTreeMap.mem_insert, Std.LawfulEqCmp.compare_eq_iff_eq,
      eq_comm]
  have hcount : ∀ k', count (chunks.insert k .zero) figure k' = count chunks figure k' := by
    intro k'
    rw [count, count, Std.ExtTreeMap.getElem?_insert]
    by_cases heq : k = k'
    · subst heq
      simp [Std.ExtTreeMap.getElem?_eq_none hk]
    · simp [heq, Std.LawfulEqCmp.compare_eq_iff_eq]
  rw [total, hkeys, Finset.sum_insert (fun h => hk (mem_keySet.mp h)), hcount, count,
    Std.ExtTreeMap.getElem?_eq_none hk]
  simp [hcount, total, hfigure]

/-- Unloading splits the totals. -/
theorem total_filter (keep : Key → Counters → Bool) :
    total (chunks.filter keep) figure + total (chunks.filter fun k c => !keep k c) figure = total chunks figure := by
  rw [total_eq_sum, total_eq_sum, total_eq_sum, Std.ExtTreeMap.toList_filter, Std.ExtTreeMap.toList_filter]
  induction chunks.toList with
  | nil => rfl
  | cons p rest ih =>
    by_cases hp : keep p.1 p.2
    · simp [hp, ← ih, add_assoc]
    · simp [hp, ← ih, add_left_comm]

/-- Loading adds nothing. -/
theorem total_loadKey (hfigure : figure .zero = 0) (acc : ChunkTable × Nat) (k : Key) :
    total (loadKey acc k).1 figure = total acc.1 figure := by
  rw [loadKey]
  split
  · rfl
  · rename_i hk
    exact total_insert hfigure (by simpa using hk)

theorem total_loadNear (hfigure : figure .zero = 0) (chunks : ChunkTable) (agents : List Cell) (radius : UInt32) :
    total (State.loadNear chunks agents radius).1 figure = total chunks figure := by
  have hkeys : ∀ (keys : List Key) (acc : ChunkTable × Nat),
      total (keys.foldl loadKey acc).1 figure = total acc.1 figure := by
    intro keys
    induction keys with
    | nil => exact fun _ => rfl
    | cons k rest ih => exact fun acc => (ih _).trans (total_loadKey hfigure acc k)
  have hwindows : ∀ (windows : List Window) (acc : ChunkTable × Nat),
      total (windows.foldl (fun acc w => w.keys.foldl loadKey acc) acc).1 figure = total acc.1 figure := by
    intro windows
    induction windows with
    | nil => exact fun _ => rfl
    | cons w rest ih => exact fun acc => (ih _).trans (hkeys w.keys acc)
  exact hwindows _ _

end ChunkTable

open ChunkTable

namespace State

theorem stats_chunkTicks (s : State) : s.stats.chunkTicks = total s.chunks (·.ticks) := by
  simp only [stats, Std.ExtTreeMap.foldl_eq_foldl_toList, foldl_counters, zero_add, total_eq_sum]

theorem stats_randomTicks (s : State) : s.stats.randomTicks = total s.chunks (·.randomTicks) := by
  simp only [stats, Std.ExtTreeMap.foldl_eq_foldl_toList, foldl_counters, zero_add, total_eq_sum]

theorem mem_loaded {s : State} {k : Key} : k ∈ s.loaded ↔ k ∈ s.chunks := Std.ExtTreeMap.mem_keys

/-- The chunks that the next refresh unloads. -/
def unloads (s : State) (viewDistance : UInt32) : ChunkTable :=
  s.chunks.filter fun k _ => !retains s.agents (loadRadius viewDistance) k.cell

/-- A refresh loses what the chunks have counted that it unloads. -/
theorem total_refresh {figure : Counters → UInt64} (hfigure : figure .zero = 0) (s : State) (viewDistance : UInt32) :
    total (s.refresh viewDistance).2.chunks figure + total (s.unloads viewDistance) figure = total s.chunks figure := by
  rw [refresh]
  exact (congrArg (· + _) (total_loadNear hfigure _ _ _)).trans (total_filter _)

end State

/-! ## The calls of a tick -/

/-- The speeds of the chunk ticks in a history. -/
def speedsOf (events : List (Event Key MobRef)) : List UInt32 := (events.filterMap Event.chunkTick?).map (·.2.2)

/-- What a figure gains from chunk ticks, each of which adds `gain` of its speed. -/
def gained (gain : UInt32 → UInt64) (speeds : List UInt32) : UInt64 := (speeds.map gain).sum

theorem gained_append (gain : UInt32 → UInt64) (l₁ l₂ : List UInt32) :
    gained gain (l₁ ++ l₂) = gained gain l₁ + gained gain l₂ := by
  simp [gained]

theorem speedsOf_concat {H : List (Event Key MobRef)} {ev : Event Key MobRef} (hev : ev.chunkTick? = none) :
    speedsOf (H ++ [ev]) = speedsOf H := by
  simp [speedsOf, hev]

/-- The history tells what a figure of the table has gained since the state was `start`. -/
def countingTerms (start : State) (figure : Counters → UInt64) (gain : UInt32 → UInt64) : Terms State Key MobRef where
  holds s H := s.herd.tracked = start.herd.tracked ∧ (∀ k, k ∈ s.chunks ↔ k ∈ start.chunks) ∧
    total s.chunks figure = total start.chunks figure + gained gain (speedsOf H)
  may _ _ _ := True
  idle s H ev hev hs := by
    have hnone : ev.chunkTick? = none := by
      rcases ev with ⟨o, c, a⟩ | _ | _ | _
      · exact absurd rfl (hev o c a)
      · rfl
      · rfl
      · rfl
    rwa [speedsOf_concat hnone]

section Counting

variable {start : State} {figure : Counters → UInt64} {gain : UInt32 → UInt64} {o : Origin}

/-- A contract does nothing to the table. -/
theorem serves_ofContract {c : Call Key MobRef} (hc : c.OfContract) :
    world.Serves (countingTerms start figure gain) o c (fun _ => True) fun _ _ => True := by
  rintro s H ⟨htracked, hkeys, htotal⟩ -
  have hanswer : ∃ a s', world.answer c s = (.ok a, s') ∧ s'.chunks = s.chunks ∧
      s'.herd.tracked = s.herd.tracked := by
    cases c with
    | lookup k => exact hc.elim
    | tickChunk k speed => exact hc.elim
    | stopRiding r => exact ⟨_, _, rfl, rfl, Herd.tracked_stopRiding⟩
    | checkDespawn r => exact ⟨_, _, rfl, rfl, Herd.tracked_checkDespawn⟩
    | tickEntity r => exact ⟨_, _, rfl, rfl, Herd.tracked_tickMob⟩
    | _ => exact ⟨_, _, rfl, rfl, rfl⟩
  obtain ⟨a, s', hans, hchunks, hherd⟩ := hanswer
  have hnone : (Event.called o c (.ok a)).chunkTick? = none := chunkTick?_of_ofOffer hc
  refine ⟨a, s', hans, ⟨hherd.trans htracked, by rwa [hchunks], ?_⟩, trivial, trivial⟩
  rw [hchunks, htotal, speedsOf_concat hnone]

/-- Each chunk tick is counted once. -/
theorem chunkTerms_counting (hgain : ∀ c speed, figure (c.count speed) = figure c + gain speed) (speed : UInt32)
    (o : Origin) :
    ChunkTerms world (countingTerms start figure gain) speed o (· ∈ start.chunks) fun _ => True := by
  refine ⟨Terms.Lasts.const _ _ _, ?_, ?_⟩
  · rintro k s H ⟨htracked, hkeys, htotal⟩ -
    refine ⟨if s.chunks.contains k then some k else none, s, rfl, ⟨htracked, hkeys, ?_⟩, trivial, fun k' hk' => ?_,
      trivial⟩
    · rwa [speedsOf_concat rfl]
    · split at hk'
      · rename_i hcontains
        obtain rfl := Option.some.inj hk'
        exact (hkeys k).mp (Std.ExtTreeMap.contains_iff_mem.mp hcontains)
      · cases hk'
  · rintro k hk s H ⟨htracked, hkeys, htotal⟩ -
    refine ⟨(), { s with chunks := s.chunks.modify k (·.count speed) }, rfl, ⟨htracked, fun k' => ?_, ?_⟩, trivial,
      trivial⟩
    · rw [Std.ExtTreeMap.mem_modify]
      exact hkeys k'
    · have hspeeds : speedsOf (H ++ [.called o (.tickChunk k speed) (.ok ())]) = speedsOf H ++ [speed] := by
        simp [speedsOf, Event.chunkTick?]
      rw [total_modify ((hkeys k).mpr hk) fun c => hgain c speed, htotal, hspeeds, gained_append, add_assoc]
      simp [gained]

/-- A tick of loaded chunks returns, and a figure of the table gains what the chunk ticks add to it. -/
theorem total_tick (hgain : ∀ c speed, figure (c.count speed) = figure c + gain speed) (enable : Bool) (plan : Plan)
    {turn : Turn Key} {s : State} (hloaded : ∀ k ∈ turn.loaded, k ∈ s.chunks) :
    let result := tick world enable plan turn s
    (∃ summary, result.summary = .ok summary) ∧
      total result.state.chunks figure = total s.chunks figure + gained gain (speedsOf result.events.toList) := by
  intro result
  have hterms : TickTerms world (countingTerms s figure gain) enable turn s (· ∈ s.chunks) (fun _ _ => True)
      fun _ _ => True := by
    refine ⟨fun o => chunkTerms_counting hgain _ o, hloaded, fun o => ?_, fun _ => Terms.Lasts.const _ _ _,
      fun _ s' H hs' _ => ?_, ⟨rfl, fun _ => Iff.rfl, ?_⟩, fun _ => trivial⟩
    · exact Program.offerAll_keeps (K := fun _ _ => True) fun e _ _ =>
        Program.AsksOnly.keeps (Program.contract_asksOnly e) (Terms.Lasts.const _ _ _) fun c hc => serves_ofContract hc
    · exact congrArg Tracked.toList hs'.1
    · simp [speedsOf, gained]
  obtain ⟨summary, hok, hholds, -⟩ := tick_keeps hterms plan
  exact ⟨⟨summary, hok⟩, hholds.2.2⟩

end Counting

/-! ## From the beginning on -/

/-- Both counts of two counters together. -/
def Counters.plus (a b : Counters) : Counters := ⟨a.ticks + b.ticks, a.randomTicks + b.randomTicks⟩

/-- What all loaded chunks count together. -/
def tally (chunks : ChunkTable) : Counters := ⟨total chunks (·.ticks), total chunks (·.randomTicks)⟩

/-- What a world may live through from its beginning on, with the speeds of all the chunk ticks that it was given, and
with what the chunks had counted that were then unloaded.  Its mobs may come and go as they like. -/
inductive Lived : List UInt32 → Counters → State → Prop
  | start {players : Nat} {spread : Float} {seed : UInt64} {nextId : UInt32} {s : State}
      (h : State.ofPlayers players spread seed nextId = .ok s) : Lived [] .zero s
  | moved {speeds : List UInt32} {lost : Counters} {s : State} (h : Lived speeds lost s) :
    Lived speeds lost s.movePlayers
  | refreshed {speeds : List UInt32} {lost : Counters} {s : State} (h : Lived speeds lost s) (viewDistance : UInt32) :
    Lived speeds (lost.plus (tally (s.unloads viewDistance))) (s.refresh viewDistance).2
  | ticked {speeds : List UInt32} {lost : Counters} {s : State} (h : Lived speeds lost s) (enable : Bool) (plan : Plan)
      {turn : Turn Key} (hloaded : ∀ k ∈ turn.loaded, k ∈ s.chunks) :
    Lived (speeds ++ speedsOf (tick world enable plan turn s).events.toList) lost (tick world enable plan turn s).state
  | elsewhere {speeds : List UInt32} {lost : Counters} {s : State} (h : Lived speeds lost s) (herd : Herd)
      (source : ChaCha) (entityTicks passengerTicks : UInt64) :
    Lived speeds lost { s with herd, source, entityTicks, passengerTicks }

/-- A figure of the counters: nothing at first, and a chunk tick adds `gain` of its speed to it. -/
structure IsFigure (figure : Counters → UInt64) (gain : UInt32 → UInt64) : Prop where
  zero : figure .zero = 0
  count : ∀ c speed, figure (c.count speed) = figure c + gain speed
  plus : ∀ a b, figure (a.plus b) = figure a + figure b
  tally : ∀ chunks, figure (tally chunks) = total chunks figure

theorem isFigure_ticks : IsFigure (·.ticks) fun _ => 1 := ⟨rfl, fun _ _ => rfl, fun _ _ => rfl, fun _ => rfl⟩

theorem isFigure_randomTicks : IsFigure (·.randomTicks) UInt32.toUInt64 :=
  ⟨rfl, fun _ _ => rfl, fun _ _ => rfl, fun _ => rfl⟩

theorem chunks_ofPlayers {players : Nat} {spread : Float} {seed : UInt64} {nextId : UInt32} {s : State}
    (h : State.ofPlayers players spread seed nextId = .ok s) : s.chunks = ∅ := by
  unfold State.ofPlayers at h
  dsimp only at h
  split at h
  · cases h
  · cases h
    rfl

/-- A figure of the table, with what the unloaded chunks took along, is all that the chunk ticks have added to it. -/
theorem Lived.total_add {figure : Counters → UInt64} {gain : UInt32 → UInt64} (hfigure : IsFigure figure gain)
    {speeds : List UInt32} {lost : Counters} {s : State} (h : Lived speeds lost s) :
    total s.chunks figure + figure lost = gained gain speeds := by
  induction h with
  | start h =>
    have hempty : (∅ : ChunkTable).toList = [] := rfl
    rw [chunks_ofPlayers h, hfigure.zero, total_eq_sum, hempty]
    simp [gained]
  | moved _ ih => exact ih
  | @refreshed speeds lost s _ viewDistance ih =>
    rw [hfigure.plus, hfigure.tally, ← ih, ← State.total_refresh hfigure.zero s viewDistance]
    ac_rfl
  | @ticked speeds lost s _ enable plan turn hloaded ih =>
    rw [gained_append, ← ih, (total_tick hfigure.count enable plan hloaded).2]
    ac_rfl
  | elsewhere _ _ _ _ _ ih => exact ih

theorem gained_one (speeds : List UInt32) : gained (fun _ => 1) speeds = UInt64.ofNat speeds.length := by
  induction speeds with
  | nil => rfl
  | cons speed rest ih =>
    rw [List.length_cons, UInt64.ofNat_add, ← ih, add_comm]
    rfl

theorem gained_speed (speeds : List UInt32) :
    gained UInt32.toUInt64 speeds = UInt64.ofNat (speeds.map UInt32.toNat).sum := by
  induction speeds with
  | nil => rfl
  | cons speed rest ih =>
    rw [List.map_cons, List.sum_cons, UInt64.ofNat_add, ← ih, UInt64.ofNat_uInt32ToNat]
    rfl

/-- The totals of a world are the number and the speeds of all chunk ticks that it was ever given, less what those
chunks had counted that were unloaded since.  So they are running totals as long as no chunk is unloaded that was
ticked. -/
theorem stats_running {speeds : List UInt32} {lost : Counters} {s : State} (h : Lived speeds lost s) :
    s.stats.chunkTicks + lost.ticks = UInt64.ofNat speeds.length ∧
      s.stats.randomTicks + lost.randomTicks = UInt64.ofNat (speeds.map UInt32.toNat).sum ∧
      (s.stats.chunkTicks = UInt64.ofNat speeds.length ↔ lost.ticks = 0) ∧
      (s.stats.randomTicks = UInt64.ofNat (speeds.map UInt32.toNat).sum ↔ lost.randomTicks = 0) := by
  have hticks : s.stats.chunkTicks + lost.ticks = UInt64.ofNat speeds.length := by
    rw [s.stats_chunkTicks, ← gained_one]
    exact h.total_add isFigure_ticks
  have hrandom : s.stats.randomTicks + lost.randomTicks = UInt64.ofNat (speeds.map UInt32.toNat).sum := by
    rw [s.stats_randomTicks, ← gained_speed]
    exact h.total_add isFigure_randomTicks
  exact ⟨hticks, hrandom, by rw [← hticks, left_eq_add], by rw [← hrandom, left_eq_add]⟩

/-! ## One player near the origin -/

/-- A world with one player near the origin. -/
def State.lonely : State :=
  ⟨∅, (placePlayers 1.0 1 (ChaCha.ofSeed 7)).1, (placePlayers 1.0 1 (ChaCha.ofSeed 7)).2, Herd.empty 0, 0, 0⟩

/-- The same after it has loaded what it sees two cells away. -/
def State.wide : State := (State.lonely.refresh 2).2

/-- A tick of all loaded chunks, seen from two cells away. -/
def Turn.all (s : State) : Turn Key := ⟨s.agents, s.loaded, ⟨2, 3⟩, .unit⟩

theorem Turn.loaded_all (s : State) : ∀ k ∈ (Turn.all s).loaded, k ∈ s.chunks := fun _ => State.mem_loaded.mp

/-- The same after that tick. -/
def State.ticked : State := (tick world true .inOrder (Turn.all .wide) .wide).state

theorem stats_running_lonely :
    let speeds := speedsOf (tick world true .inOrder (Turn.all .wide) .wide).events.toList
    let lost := (Counters.zero.plus (tally (State.lonely.unloads 2))).plus (tally (State.ticked.unloads 0))
    let s := (State.ticked.refresh 0).2
    Lived speeds lost s ∧ s.stats.chunkTicks + lost.ticks = UInt64.ofNat speeds.length ∧ lost = ⟨32, 96⟩ := by
  intro speeds lost s
  have hstart : Lived [] .zero State.lonely := .start (by rfl : State.ofPlayers 1 1.0 7 0 = .ok .lonely)
  have hwide : Lived [] (Counters.zero.plus (tally (State.lonely.unloads 2))) State.wide := .refreshed hstart 2
  have hloaded : ∀ k ∈ (Turn.all .wide).loaded, k ∈ State.wide.chunks := Turn.loaded_all .wide
  have hticked := Lived.ticked hwide true .inOrder hloaded
  rw [List.nil_append] at hticked
  have hlived : Lived speeds lost s := .refreshed hticked 0
  exact ⟨hlived, (stats_running hlived).1, by decide +kernel⟩

/-- When the player's view narrows, the totals fall: 81 chunks have been ticked, of which 49 are still counted. -/
theorem stats_not_running :
    (speedsOf (tick world true .inOrder (Turn.all .wide) .wide).events.toList).length = 81 ∧
      State.ticked.stats.chunkTicks = 81 ∧ State.ticked.stats.randomTicks = 243 ∧
      (State.ticked.refresh 0).2.stats.chunkTicks = 49 ∧ (State.ticked.refresh 0).2.stats.randomTicks = 147 := by
  decide +kernel

end GridTick.Synthetic
