import Mathlib.Data.List.Perm.Basic
import GridTick.Proofs.Grid.Plane
import GridTick.Proofs.Synthetic.Herd
import GridTick.Proofs.Tick.Terms
import GridTick.Synthetic.World

/-!
# GridTick.Proofs.Synthetic.Refresh — which chunks a refresh unloads and loads

A refresh has one list of windows, round the players and round the origin, and two tests.  A chunk stays loaded if one of
the windows covers it on the plane; and every chunk is loaded that one of them lists on the closed grid.  What is covered is
listed, so that afterwards just the listed chunks are loaded.  What is listed and not covered, near over the edge of the
grid only, is unloaded and loaded again each time, and loses what it has counted.

* `getElem?_foldl_loadKey`, `size_foldl_loadKey`: loading keys one after another.
* `State.windows`, `State.Wanted`, `State.Far`: the windows, the chunks that they list, and those that none of them covers.
* `State.getElem?_refresh`, `State.unloaded_refresh`, `State.loaded_refresh`: what a refresh does to each chunk, and its counts.
* `refresh_installs`: the chunks that are loaded after a refresh.
* `Stayed`, `tick_stays`: what may happen while no player moves.
* `refresh_again`: the next refresh after that.
-/

namespace GridTick.Synthetic

/-! ## Loading one key after another -/

section Loading

variable {acc : ChunkTable × Nat} {k q : Key}

theorem getElem?_loadKey : (loadKey acc k).1[q]? =
    if q ∈ acc.1 then acc.1[q]? else if q = k then some .zero else none := by
  unfold loadKey
  by_cases hk : k ∈ acc.1
  · rw [if_pos (Std.ExtTreeMap.contains_iff_mem.mpr hk)]
    by_cases hq : q ∈ acc.1
    · rw [if_pos hq]
    · have hne : q ≠ k := fun heq => hq (heq ▸ hk)
      rw [if_neg hq, if_neg hne, Std.ExtTreeMap.getElem?_eq_none hq]
  · rw [if_neg (mt Std.ExtTreeMap.contains_iff_mem.mp hk), Std.ExtTreeMap.getElem?_insert]
    by_cases heq : q = k
    · subst heq
      simp [hk]
    · have hne : ¬ compare k q = .eq := fun h => heq (Std.LawfulEqCmp.eq_of_compare h).symm
      rw [if_neg hne, if_neg heq]
      split
      · rfl
      · rename_i hq
        exact Std.ExtTreeMap.getElem?_eq_none hq

theorem mem_loadKey : q ∈ (loadKey acc k).1 ↔ q ∈ acc.1 ∨ q = k := by
  rw [Std.ExtTreeMap.mem_iff_isSome_getElem?, getElem?_loadKey]
  by_cases hq : q ∈ acc.1
  · rw [if_pos hq, ← Std.ExtTreeMap.mem_iff_isSome_getElem?]
    simp [hq]
  · rw [if_neg hq]
    by_cases heq : q = k
    · simp [heq]
    · simp [heq, hq]

/-- A key that is there keeps what it counts; every other one begins at nothing. -/
theorem getElem?_foldl_loadKey (keys : List Key) (acc : ChunkTable × Nat) (q : Key) :
    (keys.foldl loadKey acc).1[q]? = if q ∈ acc.1 then acc.1[q]? else if q ∈ keys then some .zero else none := by
  induction keys generalizing acc with
  | nil =>
    rw [List.foldl_nil]
    split
    · rfl
    · rename_i hq
      simpa using hq
  | cons k rest ih =>
    rw [List.foldl_cons, ih, getElem?_loadKey]
    by_cases hq : q ∈ acc.1
    · rw [if_pos (mem_loadKey.mpr (.inl hq)), if_pos hq, if_pos hq]
    · by_cases heq : q = k
      · rw [if_pos (mem_loadKey.mpr (.inr heq)), if_neg hq, if_neg hq, if_pos heq, if_pos (List.mem_cons.mpr (.inl heq))]
      · have hnew : q ∉ (loadKey acc k).1 := fun h => (mem_loadKey.mp h).elim hq heq
        rw [if_neg hnew, if_neg hq]
        simp only [List.mem_cons, heq, false_or]

theorem size_loadKey : (loadKey acc k).1.size + acc.2 = acc.1.size + (loadKey acc k).2 := by
  unfold loadKey
  split
  · rfl
  · rename_i hk
    have hsize : (acc.1.insert k Counters.zero).size = acc.1.size + 1 := by
      rw [Std.ExtTreeMap.size_insert, if_neg hk]
    show (acc.1.insert k Counters.zero).size + acc.2 = acc.1.size + (acc.2 + 1)
    omega

/-- The count is that of the keys that were not there. -/
theorem size_foldl_loadKey (keys : List Key) (acc : ChunkTable × Nat) :
    (keys.foldl loadKey acc).1.size + acc.2 = acc.1.size + (keys.foldl loadKey acc).2 := by
  induction keys generalizing acc with
  | nil => rfl
  | cons k rest ih =>
    have hfirst : (loadKey acc k).1.size + acc.2 = acc.1.size + (loadKey acc k).2 := size_loadKey
    have hrest := ih (loadKey acc k)
    rw [List.foldl_cons]
    omega

end Loading

/-! ## Counting the keys of a table -/

namespace ChunkTable

variable {t t' : ChunkTable}

/-- The keys of a table that are in another one as well are all keys of that one, if it has no others. -/
theorem countP_mem (h : ∀ k ∈ t, k ∈ t') : t'.keys.countP (fun k => decide (k ∈ t)) = t.size := by
  rw [List.countP_eq_length_filter, ← Std.ExtTreeMap.length_keys]
  refine List.Perm.length_eq ((List.perm_ext_iff_of_nodup ?_ Std.ExtTreeMap.nodup_keys).mpr fun k => ?_)
  · exact Std.ExtTreeMap.nodup_keys.filter _
  · rw [List.mem_filter, Std.ExtTreeMap.mem_keys, Std.ExtTreeMap.mem_keys, decide_eq_true_iff]
    exact ⟨And.right, fun hk => ⟨h k hk, hk⟩⟩

theorem size_eq_of_mem_iff (h : ∀ k, k ∈ t ↔ k ∈ t') : t.size = t'.size := by
  rw [← Std.ExtTreeMap.length_keys, ← Std.ExtTreeMap.length_keys]
  refine List.Perm.length_eq ((List.perm_ext_iff_of_nodup Std.ExtTreeMap.nodup_keys Std.ExtTreeMap.nodup_keys).mpr ?_)
  intro k
  rw [Std.ExtTreeMap.mem_keys, Std.ExtTreeMap.mem_keys, h k]

end ChunkTable

/-! ## The windows of a refresh -/

namespace State

/-- The windows of a refresh: two cells more than the view round each player, and three round the origin. -/
def windows (s : State) (viewDistance : UInt32) : List Window :=
  s.agents.map (Window.mk · (viewDistance + 2)) ++ [⟨Cell.origin, 3⟩]

/-- A chunk that one of the windows lists. -/
def Wanted (s : State) (viewDistance : UInt32) (k : Key) : Prop := ∃ w ∈ s.windows viewDistance, k ∈ w.toSet

/-- A chunk that is farther from each of the centres, on the plane, than its window reaches. -/
def Far (s : State) (viewDistance : UInt32) (k : Key) : Prop :=
  ∀ w ∈ s.windows viewDistance, w.radius.toNat < w.center.distance k.cell

instance (s : State) (viewDistance : UInt32) (k : Key) : Decidable (s.Wanted viewDistance k) :=
  inferInstanceAs (Decidable (∃ w ∈ s.windows viewDistance, k ∈ w.toSet))

instance (s : State) (viewDistance : UInt32) (k : Key) : Decidable (s.Far viewDistance k) :=
  inferInstanceAs (Decidable (∀ w ∈ s.windows viewDistance, w.radius.toNat < w.center.distance k.cell))

variable {s t : State} {v : UInt32} {k : Key}

theorem loadRadius_eq (hv : v.toNat + 2 ≤ 2147483647) : loadRadius v = v + 2 := by
  have hmin : min (v.toNat + loadMargin) (twoTo 32 - 1) = v.toNat + 2 := Nat.min_eq_left (by
    show v.toNat + 2 ≤ 4294967295
    omega)
  rw [loadRadius, hmin, UInt32.ofNat_add, UInt32.ofNat_toNat]
  rfl

theorem toNat_add_two (hv : v.toNat + 2 ≤ 2147483647) : (v + 2).toNat = v.toNat + 2 := by
  rw [UInt32.toNat_add]
  exact Nat.mod_eq_of_lt (by
    show v.toNat + 2 < 4294967296
    omega)

/-- Every window of a refresh fits on the grid. -/
theorem radius_le (hv : v.toNat + 2 ≤ 2147483647) : ∀ w ∈ s.windows v, w.radius.toNat ≤ 2147483647 := by
  intro w hw
  rcases List.mem_append.mp hw with hw | hw
  · obtain ⟨a, -, rfl⟩ := List.mem_map.mp hw
    exact (toNat_add_two hv).trans_le hv
  · obtain rfl := List.mem_singleton.mp hw
    decide

theorem not_far_iff : ¬ s.Far v k ↔ ∃ w ∈ s.windows v, w.covers k.cell = true := by
  unfold Far
  simp only [Window.covers_iff, not_forall, Nat.not_lt, exists_prop]

theorem retains_iff (hv : v.toNat + 2 ≤ 2147483647) :
    retains s.agents (loadRadius v) k.cell = true ↔ ¬ s.Far v k := by
  have hany : retains s.agents (loadRadius v) k.cell = (s.windows v).any (·.covers k.cell) := by
    rw [loadRadius_eq hv, windows, List.any_append, List.any_map, List.any_cons, List.any_nil, Bool.or_false, Bool.or_comm]
    rfl
  rw [not_far_iff, hany, List.any_eq_true]

/-- What is near on the plane is listed. -/
theorem wanted_of_not_far (hv : v.toNat + 2 ≤ 2147483647) (hk : ¬ s.Far v k) : s.Wanted v k := by
  obtain ⟨w, hw, hcovers⟩ := not_far_iff.mp hk
  have hlisted := Window.key_mem_toSet_of_covers (radius_le hv w hw) hcovers
  rw [Key.key_cell] at hlisted
  exact ⟨w, hw, hlisted⟩

/-! ## What a refresh does -/

/-- The chunks that a refresh has left when it begins to load. -/
def spared (s : State) (v : UInt32) : ChunkTable := unloadFar s.chunks s.agents (loadRadius v)

theorem mem_spared (hv : v.toNat + 2 ≤ 2147483647) : k ∈ s.spared v ↔ k ∈ s.chunks ∧ ¬ s.Far v k := by
  rw [spared, unloadFar, ← Std.ExtTreeMap.mem_keys, Std.ExtTreeMap.keys_filter_key, List.mem_filter,
    Std.ExtTreeMap.mem_keys, retains_iff hv]

theorem getElem?_spared (hv : v.toNat + 2 ≤ 2147483647) (hk : k ∈ s.spared v) : (s.spared v)[k]? = s.chunks[k]? := by
  have hkept : retains s.agents (loadRadius v) k.cell = true := (retains_iff hv).mpr ((mem_spared hv).mp hk).2
  rw [spared, unloadFar, Std.ExtTreeMap.getElem?_filter', hkept]
  cases s.chunks[k]? <;> rfl

theorem chunks_refresh (hv : v.toNat + 2 ≤ 2147483647) : ((s.refresh v).2.chunks, (s.refresh v).1.1) =
    ((s.windows v).flatMap Window.keys).foldl loadKey (s.spared v, 0) := by
  have hwindows : s.agents.map (Window.mk · (loadRadius v)) ++ [spawnWindow] = s.windows v := by
    rw [loadRadius_eq hv]
    rfl
  rw [List.foldl_flatMap, ← hwindows]
  rfl

theorem mem_keys_iff_wanted : k ∈ (s.windows v).flatMap Window.keys ↔ s.Wanted v k := by
  rw [List.mem_flatMap]
  exact exists_congr fun w => and_congr_right fun _ => Window.mem_toSet.symm

/-- A chunk that was near keeps what it has counted, every other chunk that is wanted has counted nothing, and no other
is loaded. -/
theorem getElem?_refresh (hv : v.toNat + 2 ≤ 2147483647) : (s.refresh v).2.chunks[k]? =
    if k ∈ s.chunks ∧ ¬ s.Far v k then s.chunks[k]? else if s.Wanted v k then some .zero else none := by
  have hloaded := getElem?_foldl_loadKey ((s.windows v).flatMap Window.keys) (s.spared v, 0) k
  rw [← chunks_refresh hv] at hloaded
  simp only [mem_spared hv, mem_keys_iff_wanted] at hloaded
  rw [hloaded]
  split
  · rename_i hk
    exact getElem?_spared hv ((mem_spared hv).mpr hk)
  · rfl

theorem mem_refresh (hv : v.toNat + 2 ≤ 2147483647) : k ∈ (s.refresh v).2.chunks ↔ s.Wanted v k := by
  rw [Std.ExtTreeMap.mem_iff_isSome_getElem?, getElem?_refresh hv]
  split
  · rename_i hk
    rw [← Std.ExtTreeMap.mem_iff_isSome_getElem?]
    exact iff_of_true hk.1 (wanted_of_not_far hv hk.2)
  · split
    · rename_i hk
      exact iff_of_true rfl hk
    · rename_i hk
      exact iff_of_false (by simp) hk

theorem unloaded_refresh (hv : v.toNat + 2 ≤ 2147483647) :
    (s.refresh v).1.2 = s.chunks.keys.countP (fun k => decide (s.Far v k)) := by
  have hspared : (s.spared v).size = s.chunks.keys.countP (fun k => decide (¬ s.Far v k)) := by
    rw [spared, unloadFar, ← Std.ExtTreeMap.length_keys, Std.ExtTreeMap.keys_filter_key, List.countP_eq_length_filter]
    refine congrArg List.length (List.filter_congr fun k _ => ?_)
    rw [Bool.eq_iff_iff, retains_iff hv, decide_eq_true_iff]
  have hboth := List.length_eq_countP_add_countP (fun k => decide (s.Far v k)) (l := s.chunks.keys)
  simp only [decide_eq_true_iff] at hboth
  rw [Std.ExtTreeMap.length_keys] at hboth
  show s.chunks.size - (s.spared v).size = _
  omega

theorem size_spared : (s.spared v).size + (s.refresh v).1.2 = s.chunks.size := by
  have hle : (s.spared v).size ≤ s.chunks.size := Std.ExtTreeMap.size_filter_le_size
  show (s.spared v).size + (s.chunks.size - (s.spared v).size) = s.chunks.size
  omega

theorem size_refresh (hv : v.toNat + 2 ≤ 2147483647) :
    (s.refresh v).2.chunks.size = (s.spared v).size + (s.refresh v).1.1 := by
  have hsize := size_foldl_loadKey ((s.windows v).flatMap Window.keys) (s.spared v, 0)
  rwa [← chunks_refresh hv] at hsize

theorem loaded_refresh (hv : v.toNat + 2 ≤ 2147483647) : (s.refresh v).1.1 =
    (s.refresh v).2.chunks.keys.countP (fun k => decide (¬ (k ∈ s.chunks ∧ ¬ s.Far v k))) := by
  have hspared : (s.refresh v).2.chunks.keys.countP (fun k => decide (k ∈ s.chunks ∧ ¬ s.Far v k)) =
      (s.spared v).size := by
    have hsub : ∀ k ∈ s.spared v, k ∈ (s.refresh v).2.chunks := fun k hk =>
      (mem_refresh hv).mpr (wanted_of_not_far hv ((mem_spared hv).mp hk).2)
    simpa only [mem_spared hv] using ChunkTable.countP_mem hsub
  have hboth := List.length_eq_countP_add_countP (fun k => decide (k ∈ s.chunks ∧ ¬ s.Far v k))
    (l := (s.refresh v).2.chunks.keys)
  simp only [decide_eq_true_iff] at hboth
  rw [Std.ExtTreeMap.length_keys, size_refresh hv, hspared] at hboth
  omega

theorem size_kept_le (s : State) (v : UInt32) : (s.refresh v).1.2 ≤ s.chunks.size := Nat.sub_le ..

end State

/-- What a refresh of `s` leaves, when it says that it has loaded and unloaded so many chunks. -/
structure Refreshed (s : State) (viewDistance : UInt32) (loads unloads : Nat) (s' : State) : Prop where
  installed : ∀ k, k ∈ s'.chunks ↔
    (∃ a ∈ s.agents, k ∈ (Window.mk a (viewDistance + 2)).toSet) ∨ k ∈ (Window.mk Cell.origin 3).toSet
  unloaded : unloads = s.chunks.keys.countP fun k => s.Far viewDistance k
  loaded : loads = s'.chunks.keys.countP fun k => ¬ (k ∈ s.chunks ∧ ¬ s.Far viewDistance k)
  size : unloads ≤ s.chunks.size ∧ s'.chunks.size = s.chunks.size - unloads + loads
  kept : ∀ k ∈ s.chunks, ¬ s.Far viewDistance k → s'.chunks[k]? = s.chunks[k]?
  added : ∀ k ∈ s'.chunks, ¬ (k ∈ s.chunks ∧ ¬ s.Far viewDistance k) → s'.chunks[k]? = some .zero
  rest : s' = { s with chunks := s'.chunks }

/-- A refresh leaves the chunks loaded that the windows of the players and of the origin list, and no others; it unloads
those that are far on the plane, and counts what it unloads and what it then loads. -/
theorem refresh_installs (s : State) {v : UInt32} (hv : v.toNat + 2 ≤ 2147483647) :
    Refreshed s v (s.refresh v).1.1 (s.refresh v).1.2 (s.refresh v).2 := by
  refine ⟨fun k => ?_, State.unloaded_refresh hv, State.loaded_refresh hv, ⟨s.size_kept_le v, ?_⟩, fun k hk hnear => ?_,
    fun k hk hnew => ?_, rfl⟩
  · rw [State.mem_refresh hv]
    simp only [State.Wanted, State.windows, List.mem_append, List.mem_map, List.mem_singleton, or_and_right, exists_or,
      exists_eq_left, exists_exists_and_eq_and]
  · have hspared := s.size_spared (v := v)
    have hsize := State.size_refresh (s := s) hv
    omega
  · rw [State.getElem?_refresh hv, if_pos ⟨hk, hnear⟩]
  · rw [State.getElem?_refresh hv, if_neg hnew, if_pos ((State.mem_refresh hv).mp hk)]

/-! ## A window at the corner of the plane -/

/-- A world whose player is placed so far out that it counts as standing in a corner of the plane. -/
def State.cornered : State :=
  let placed := placePlayers (Float.ofBits 0x7E37E43C8800759C) 1 (ChaCha.ofSeed 7)
  ⟨∅, placed.1, placed.2, Herd.empty 0, 0, 0⟩

/-- When the view narrows, the chunks that were near over the edge are unloaded with those that have come to be far, and
loaded again. -/
theorem refresh_installs_cornered :
    let s := (State.cornered.refresh 2).2
    (0 : UInt32).toNat + 2 ≤ 2147483647 ∧ Refreshed s 0 16 72 (s.refresh 0).2 ∧ s.chunks.size = 130 := by
  intro s
  have hv : (0 : UInt32).toNat + 2 ≤ 2147483647 := by decide
  obtain ⟨hcounts, hsize⟩ : (s.refresh 0).1 = (16, 72) ∧ s.chunks.size = 130 := by decide +kernel
  have hrefreshed := refresh_installs s hv
  rw [hcounts] at hrefreshed
  exact ⟨hv, hrefreshed, hsize⟩

/-! ## While no player moves -/

/-- The players stay where they are, and the same chunks stay loaded. -/
def stayingTerms (start : State) : Terms State Key MobRef where
  holds s _ := s.herd.tracked = start.herd.tracked ∧ s.players = start.players ∧ ∀ k, k ∈ s.chunks ↔ k ∈ start.chunks
  may _ _ _ := True
  idle _ _ _ _ hs := hs

section Staying

variable {start : State} {o : Origin}

theorem serves_staying (c : Call Key MobRef) :
    world.Serves (stayingTerms start) o c (fun _ => True) fun _ _ => True := by
  rintro s H ⟨htracked, hplayers, hchunks⟩ -
  have hanswer : ∃ a s', world.answer c s = (.ok a, s') ∧ s'.herd.tracked = s.herd.tracked ∧ s'.players = s.players ∧
      ∀ k, k ∈ s'.chunks ↔ k ∈ s.chunks := by
    cases c with
    | tickChunk k speed => exact ⟨_, _, rfl, rfl, rfl, fun k' => Std.ExtTreeMap.mem_modify⟩
    | stopRiding r => exact ⟨_, _, rfl, Herd.tracked_stopRiding, rfl, fun _ => Iff.rfl⟩
    | checkDespawn r => exact ⟨_, _, rfl, Herd.tracked_checkDespawn, rfl, fun _ => Iff.rfl⟩
    | tickEntity r => exact ⟨_, _, rfl, Herd.tracked_tickMob, rfl, fun _ => Iff.rfl⟩
    | _ => exact ⟨_, _, rfl, rfl, rfl, fun _ => Iff.rfl⟩
  obtain ⟨a, s', hans, htracked', hplayers', hchunks'⟩ := hanswer
  exact ⟨a, s', hans, ⟨htracked'.trans htracked, hplayers'.trans hplayers, fun k => (hchunks' k).trans (hchunks k)⟩,
    trivial, trivial⟩

/-- A tick moves no player, and loads and unloads nothing. -/
theorem tick_stays (enable : Bool) (plan : Plan) (turn : Turn Key) (s : State) :
    let s' := (tick world enable plan turn s).state
    s'.players = s.players ∧ ∀ k, k ∈ s'.chunks ↔ k ∈ s.chunks := by
  intro s'
  have hlasts : ∀ p, (stayingTerms s).Lasts p fun _ => True := fun _ => .const _ _ _
  have hterms : TickTerms world (stayingTerms s) enable turn s (fun _ => True) (fun _ _ => True) fun _ _ => True := by
    refine ⟨fun o => ⟨hlasts _, fun k => ?_, fun k _ => serves_staying _⟩, fun _ _ => trivial, fun o => ?_, hlasts,
      fun _ s' H hs' _ => congrArg Tracked.toList hs'.1, ⟨rfl, rfl, fun _ => Iff.rfl⟩, fun _ => trivial⟩
    · intro s₁ H hs₁ hP
      obtain ⟨a, s₂, hans, hs₂, -, -⟩ := serves_staying (.lookup k) s₁ H hs₁ hP
      exact ⟨a, s₂, hans, hs₂, trivial, fun _ _ => trivial, trivial⟩
    · exact Program.offerAll_keeps (K := fun _ _ => True) fun e _ _ =>
        Program.AsksOnly.keeps (Program.contract_asksOnly e) (hlasts _) fun c _ => serves_staying c
  obtain ⟨-, -, hholds, -⟩ := tick_keeps hterms plan
  exact hholds.2

end Staying

/-- What may become of a world while no player moves and no chunks are refreshed.  Its mobs may come and go as they
like. -/
inductive Stayed (start : State) : State → Prop
  | still : Stayed start start
  | ticked {s : State} (h : Stayed start s) (enable : Bool) (plan : Plan) (turn : Turn Key) :
    Stayed start (tick world enable plan turn s).state
  | elsewhere {s : State} (h : Stayed start s) (herd : Herd) (source : ChaCha) (entityTicks passengerTicks : UInt64) :
    Stayed start { s with herd, source, entityTicks, passengerTicks }

theorem Stayed.same {start s : State} (h : Stayed start s) :
    s.players = start.players ∧ ∀ k, k ∈ s.chunks ↔ k ∈ start.chunks := by
  induction h with
  | still => exact ⟨rfl, fun _ => Iff.rfl⟩
  | @ticked s _ enable plan turn ih =>
    obtain ⟨hplayers, hchunks⟩ := tick_stays enable plan turn s
    exact ⟨hplayers.trans ih.1, fun k => (hchunks k).trans (ih.2 k)⟩
  | elsewhere _ _ _ _ _ ih => exact ih

/-! ## One refresh after another -/

namespace State

variable {s t : State} {v : UInt32} {k : Key}

theorem windows_of_players (hplayers : t.players = s.players) (v : UInt32) : t.windows v = s.windows v := by
  unfold windows agents
  rw [hplayers]

/-- Just those chunks are loaded that are wanted. -/
def Settled (s : State) (v : UInt32) : Prop := ∀ k, k ∈ s.chunks ↔ s.Wanted v k

/-- What is wanted depends on the players alone, so what a refresh leaves is settled as long as none of them moves. -/
theorem settled_of_stayed (hv : v.toNat + 2 ≤ 2147483647) (h : Stayed (s.refresh v).2 t) : t.Settled v := by
  obtain ⟨hplayers, hchunks⟩ := h.same
  intro k
  rw [hchunks, mem_refresh hv, Wanted, Wanted, windows_of_players hplayers]
  rfl

/-- The chunks that a refresh unloads. -/
def lost (s : State) (v : UInt32) : List Key := s.chunks.keys.filter fun k => s.Far v k

theorem mem_lost : k ∈ s.lost v ↔ k ∈ s.chunks ∧ s.Far v k := by
  rw [lost, List.mem_filter, Std.ExtTreeMap.mem_keys, decide_eq_true_iff]

/-- Of settled chunks so many are loaded as are unloaded. -/
theorem Settled.counts (h : t.Settled v) (hv : v.toNat + 2 ≤ 2147483647) :
    (t.refresh v).1 = ((t.lost v).length, (t.lost v).length) := by
  have hunloaded : (t.refresh v).1.2 = (t.lost v).length := by
    rw [unloaded_refresh hv, lost, List.countP_eq_length_filter]
  have hsame : (t.refresh v).2.chunks.size = t.chunks.size :=
    ChunkTable.size_eq_of_mem_iff fun k => (mem_refresh hv).trans (h k).symm
  have hspared := t.size_spared (v := v)
  have hsize := size_refresh (s := t) hv
  refine Prod.ext ?_ hunloaded
  show (t.refresh v).1.1 = (t.lost v).length
  omega

theorem Settled.getElem?_refresh (h : t.Settled v) (hv : v.toNat + 2 ≤ 2147483647) (k : Key) :
    (t.refresh v).2.chunks[k]? = if k ∈ t.lost v then some .zero else t.chunks[k]? := by
  rw [State.getElem?_refresh hv]
  by_cases hk : k ∈ t.chunks
  · by_cases hfar : t.Far v k
    · rw [if_neg fun hnear => hnear.2 hfar, if_pos ((h k).mp hk), if_pos (mem_lost.mpr ⟨hk, hfar⟩)]
    · rw [if_pos ⟨hk, hfar⟩, if_neg fun hlost => hfar (mem_lost.mp hlost).2]
  · rw [if_neg fun hnear => hk hnear.1, if_neg (mt (h k).mpr hk), if_neg fun hlost => hk (mem_lost.mp hlost).1,
      Std.ExtTreeMap.getElem?_eq_none hk]

/-- A refresh after which every chunk counts what it counted before changes nothing. -/
theorem refresh_eq_self (h : ∀ k : Key, (t.refresh v).2.chunks[k]? = t.chunks[k]?) : (t.refresh v).2 = t := by
  have hchunks : (t.refresh v).2.chunks = t.chunks := Std.ExtTreeMap.ext_getElem? fun k => h k
  calc (t.refresh v).2 = { t with chunks := (t.refresh v).2.chunks } := rfl
    _ = t := by rw [hchunks]

/-- Where the windows of all players stay on the plane, what is wanted is near. -/
theorem not_far_of_inside (hv : v.toNat + 2 ≤ 2147483647) (hinside : ∀ a ∈ s.agents, (Window.mk a (v + 2)).Inside)
    (hk : s.Wanted v k) : ¬ s.Far v k := by
  obtain ⟨w, hw, hlisted⟩ := hk
  have hplane : w.Inside := by
    rcases List.mem_append.mp hw with hw | hw
    · obtain ⟨a, ha, rfl⟩ := List.mem_map.mp hw
      exact hinside a ha
    · obtain rfl := List.mem_singleton.mp hw
      unfold Window.Inside Fits
      decide
  refine not_far_iff.mpr ⟨w, hw, hplane.covers ?_⟩
  rw [← Window.key_mem_toSet_iff (radius_le hv w hw), Key.key_cell]
  exact hlisted

end State

/-- When no player has moved since a refresh, the next one unloads the chunks that are near over the edge of the grid
only, and loads the same again: they count from nothing, and nothing else changes.  There are none of them if the windows
of all players stay on the plane; and nobody sees the difference if nothing was counted between the two. -/
theorem refresh_again {s t : State} {v : UInt32} (hv : v.toNat + 2 ≤ 2147483647) (h : Stayed (s.refresh v).2 t) :
    (t.refresh v).1 = ((t.lost v).length, (t.lost v).length) ∧
      (∀ k, k ∈ t.lost v ↔ t.Wanted v k ∧ t.Far v k) ∧
      (t.refresh v).2 = { t with chunks := (t.refresh v).2.chunks } ∧
      (∀ k : Key, (t.refresh v).2.chunks[k]? = if k ∈ t.lost v then some .zero else t.chunks[k]?) ∧
      ((∀ a ∈ t.agents, (Window.mk a (v + 2)).Inside) → t.refresh v = ((0, 0), t)) ∧
      (t = (s.refresh v).2 → (t.refresh v).2 = t) := by
  have hsettled : t.Settled v := State.settled_of_stayed hv h
  have hlost : ∀ k, k ∈ t.lost v ↔ t.Wanted v k ∧ t.Far v k := by
    intro k
    rw [State.mem_lost, hsettled k]
  have hget := hsettled.getElem?_refresh hv
  refine ⟨hsettled.counts hv, hlost, rfl, hget, fun hinside => ?_, fun heq => State.refresh_eq_self fun k => ?_⟩
  · have hnone : t.lost v = [] := by
      refine List.eq_nil_iff_forall_not_mem.mpr fun k hk => ?_
      obtain ⟨hwanted, hfar⟩ := (hlost k).mp hk
      exact State.not_far_of_inside hv hinside hwanted hfar
    refine Prod.ext ?_ (State.refresh_eq_self fun k => ?_)
    · rw [hsettled.counts hv, hnone]
      rfl
    · rw [hget, hnone, if_neg List.not_mem_nil]
  · rw [hget]
    split
    · -- what is lost now has just been loaded
      rename_i hk
      obtain ⟨hwanted, hfar⟩ := (hlost k).mp hk
      have hwindows : t.windows v = s.windows v := State.windows_of_players h.same.1 v
      rw [heq, State.getElem?_refresh hv, if_neg, if_pos]
      · rwa [State.Wanted, ← hwindows]
      · rw [State.Far, ← hwindows]
        exact fun hnear => hnear.2 hfar
    · rfl

/-- The corner after a refresh and a tick of all chunks: a refresh then unloads and loads sixteen chunks. -/
theorem refresh_again_cornered :
    let s := (State.cornered.refresh 0).2
    let t := (tick world true .inOrder ⟨s.agents, s.loaded, ⟨0, 3⟩, .unit⟩ s).state
    (0 : UInt32).toNat + 2 ≤ 2147483647 ∧ Stayed s t ∧ (t.refresh 0).1 = (16, 16) ∧
      t.stats.chunkTicks = 74 ∧ (t.refresh 0).2.stats.chunkTicks = 58 := by
  intro s t
  have hv : (0 : UInt32).toNat + 2 ≤ 2147483647 := by decide
  have hstayed : Stayed s t := .ticked .still _ _ _
  obtain ⟨hlost, hbefore, hafter⟩ : (t.lost 0).length = 16 ∧ t.stats.chunkTicks = 74 ∧
      (t.refresh 0).2.stats.chunkTicks = 58 := by decide +kernel
  obtain ⟨hcounts, -⟩ := refresh_again hv hstayed
  rw [hlost] at hcounts
  exact ⟨hv, hstayed, hcounts, hbefore, hafter⟩

/-- A second refresh is not idle: a player stands in a corner of the plane, and sixteen of the chunks that the first one
has loaded are unloaded and loaded again. -/
theorem refresh_not_idle :
    State.ofPlayers 1 (Float.ofBits 0x7E37E43C8800759C) 7 0 = .ok .cornered ∧
      State.cornered.agents = [⟨-2147483648, -2147483648⟩] ∧ (State.cornered.refresh 0).1 = (74, 0) ∧
      ((State.cornered.refresh 0).2.refresh 0).1 = (16, 16) :=
  ⟨rfl, by decide +kernel⟩

end GridTick.Synthetic
