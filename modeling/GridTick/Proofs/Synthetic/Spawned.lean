import Mathlib.Algebra.Ring.Nat
import GridTick.Proofs.Synthetic.Spawners

/-!
# GridTick.Proofs.Synthetic.Spawned — calls that add mobs do not get in each other's way

Calls that add mobs side by side never give two mobs one number, lose none and count each of them once, in whichever
order they take their steps.

* `Spawners.numbered`, `Spawners.handed`: the mobs that were given a number, and those that were handed over to be tracked.
* `Ledger`: where every mob is between the two, which numbers are out, and how far each rider and its vehicle have come.
* `Fulfils`, `Called`: how much of its order a call has done, and when it returns what.
* `Free`, `Accepted`: as long as the numbers are free, every mob that is handed over is tracked and counted.
* `Accounted`, `spawners_accounted`: what several calls come to, after any turns.
-/

namespace GridTick.Synthetic

/-! ## Mobs in the hands of a call -/

def Deed.numbered? : Deed → Option MobRef
  | .numbered r => some r
  | .tracked .. => none

def Deed.tracked? : Deed → Option MobRef
  | .numbered _ => none
  | .tracked r _ => some r

/-- A mob was handed over whose number was tracked already. -/
def Deed.refused : Deed → Bool
  | .numbered _ => false
  | .tracked _ isNew => !isNew

/-- The mobs that have a number and are not handed over yet. -/
def Phase.held : Phase → List MobRef
  | .ready => []
  | .numbered mob .. => [mob]
  | .seated rider mob => [rider, mob]
  | .rest mob => [mob]

/-- The handle of the mob that comes after `k` others. -/
def Herd.handle (h : Herd) (k : Nat) : MobRef := ⟨h.mobs.size + k, h.nextId + UInt32.ofNat k⟩

theorem Herd.handle_zero (h : Herd) : h.handle 0 = h.nextRef := by
  show (⟨h.mobs.size + 0, h.nextId + 0⟩ : MobRef) = h.nextRef
  rw [UInt32.add_zero]
  rfl

theorem Herd.handle_succ (h : Herd) (k : Nat) : h.handle (k + 1) = ⟨(h.handle k).slot + 1, (h.handle k).id + 1⟩ := by
  unfold handle
  rw [UInt32.ofNat_add, ← UInt32.add_assoc]
  rfl

/-- Different numbers, as long as no number comes round again. -/
theorem Herd.handle_ids_nodup (h : Herd) {n : Nat} (hn : n ≤ UInt32.size) :
    (((List.range n).map h.handle).map MobRef.id).Nodup := by
  rw [List.map_map]
  refine List.nodup_range.map_on fun a ha b hb hid => ?_
  have hid' : UInt32.ofNat a = UInt32.ofNat b := (UInt32.add_right_inj _).mp hid
  have hnat := congrArg UInt32.toNat hid'
  rw [List.mem_range] at ha hb
  rwa [UInt32.toNat_ofNat_of_lt' (ha.trans_le hn), UInt32.toNat_ofNat_of_lt' (hb.trans_le hn)] at hnat

namespace Spawning

variable {γ : Type}

/-- How far a rider and its vehicle have come in a call that has handed over `done`.  The vehicle goes right after the
rider. -/
def Seats (c : Spawning γ) (done : List MobRef) (r v : MobRef) : Prop :=
  c.phase = .seated r v ∨ (c.phase = .rest v ∧ [r] <:+ done) ∨ [r, v] <:+: done

/-- How much of its order a call has done by these deeds.  It adds one mob or two in a round, and none for a mob that is
refused. -/
structure Fulfils (c : Spawning γ) (o : SpawnOrder γ) (deeds : List (Nat × Deed)) : Prop where
  upper : c.added + min 2 c.phase.todo + 2 * c.left ≤ 2 * o.mobs
  lower : (∀ x ∈ deeds, x.2.refused = false) → o.mobs ≤ c.added + min 1 c.phase.todo + c.left
  steps : deeds.length + c.todo ≤ 4 * o.mobs

theorem fulfils_start (o : SpawnOrder γ) : o.start.Fulfils o [] := by
  refine ⟨?_, fun _ => ?_, ?_⟩
  · show 0 + min 2 0 + 2 * o.mobs ≤ 2 * o.mobs
    omega
  · show o.mobs ≤ 0 + min 1 0 + o.mobs
    omega
  · show 0 + (4 * o.mobs + 0) ≤ 4 * o.mobs
    omega

/-- A call that has returned has added each of its mobs, with at most one rider each. -/
theorem Fulfils.returned {c : Spawning γ} {o : SpawnOrder γ} {deeds : List (Nat × Deed)} {n : Nat} (hf : c.Fulfils o deeds)
    (hnew : ∀ x ∈ deeds, x.2.refused = false) (hn : c.returned? = some n) : o.mobs ≤ n ∧ n ≤ 2 * o.mobs := by
  obtain ⟨hdone, rfl⟩ := returned?_eq_some_iff.mp hn
  have hlower := hf.lower hnew
  have hupper := hf.upper
  unfold todo at hdone
  omega

/-- What is known of a call with so many turns of its own and these deeds. -/
structure Called (c : Spawning γ) (o : SpawnOrder γ) (deeds : List (Nat × Deed)) (turns : Nat) : Prop where
  returns : 4 * o.count ≤ turns → ∃ n, c.returned? = some n
  idle : o.centers.isEmpty = true → c.returned? = some 0 ∧ deeds = []
  between : o.centers.isEmpty = false → ∀ n, c.returned? = some n → o.count ≤ n ∧ n ≤ 2 * o.count

theorem Fulfils.called {c : Spawning γ} {o : SpawnOrder γ} {deeds : List (Nat × Deed)} {turns : Nat} (hf : c.Fulfils o deeds)
    (hnew : ∀ x ∈ deeds, x.2.refused = false) (htodo : c.todo ≤ o.start.todo - turns) : c.Called o deeds turns := by
  have hsteps := hf.steps
  refine ⟨fun hturns => ⟨c.added, returned?_eq_some_iff.mpr ⟨?_, rfl⟩⟩, fun hempty => ?_, fun hcenters n hn => ?_⟩
  · have hmobs : o.mobs ≤ o.count := by
      unfold SpawnOrder.mobs
      split <;> omega
    have hbegin : o.start.todo = 4 * o.mobs := rfl
    omega
  · have hnone : o.mobs = 0 := if_pos hempty
    have hupper := hf.upper
    exact ⟨returned?_eq_some_iff.mpr ⟨by omega, by omega⟩, List.eq_nil_of_length_eq_zero (by omega)⟩
  · have hall : o.mobs = o.count := if_neg (by rw [hcenters]; exact Bool.false_ne_true)
    rw [← hall]
    exact hf.returned hnew hn

/-- What the calls have returned is what they have added. -/
theorem added_of_returned {calls : List (Spawning γ)} {ns : List Nat} (h : calls.map returned? = ns.map some) :
    (∀ c ∈ calls, c.todo = 0) ∧ calls.map (·.added) = ns := by
  induction calls generalizing ns with
  | nil =>
    obtain rfl : ns = [] := List.map_eq_nil_iff.mp h.symm
    exact ⟨nofun, rfl⟩
  | cons c rest ih =>
    obtain ⟨n, ms, rfl, hn, hms⟩ := List.map_eq_cons_iff.mp h.symm
    obtain ⟨hdone, hadded⟩ := returned?_eq_some_iff.mp hn.symm
    obtain ⟨hrest, hsum⟩ := ih hms.symm
    exact ⟨List.forall_mem_cons.mpr ⟨hdone, hrest⟩, by rw [List.map_cons, hadded, hsum]⟩

section Steps

variable [WordSource γ] {c c' : Spawning γ} {h h' : Herd} {deed : Deed} {r v : MobRef}

/-- A step takes the next number, or hands over a mob that the call holds. -/
theorem Steps.cases_herd (hstep : Steps c h c' h' deed) :
    (deed = .numbered h.nextRef ∧ h'.nextRef = ⟨h.nextRef.slot + 1, h.nextRef.id + 1⟩ ∧ h'.tracked = h.tracked) ∨
      ∃ r ∈ c.phase.held, deed = .tracked r (h.track r).1 ∧ h' = (h.track r).2 := by
  cases hstep with
  | begun hphase hleft d source hdraft =>
    refine .inl ⟨rfl, ?_, rfl⟩
    simp [Herd.nextRef, Herd.add]
  | seated hphase =>
    refine .inl ⟨rfl, ?_, rfl⟩
    simp [Herd.nextRef, Herd.mount, Herd.add]
  | @riderTracked rider mob hphase => exact .inr ⟨rider, by simp [hphase, Phase.held], rfl, rfl⟩
  | @mobTracked mob hphase => exact .inr ⟨mob, by simp [hphase, Phase.held], rfl, rfl⟩

/-- No mob is lost between its number and the handing over. -/
theorem Steps.held (hstep : Steps c h c' h' deed) :
    (deed.numbered?.toList ++ c.phase.held).Perm (deed.tracked?.toList ++ c'.phase.held) := by
  cases hstep with
  | begun hphase hleft d source hdraft =>
    rw [hphase]
    unfold Phase.ofDraft
    dsimp only
    split <;> exact List.Perm.refl _
  | seated hphase =>
    rw [hphase]
    exact List.Perm.refl _
  | riderTracked hphase =>
    rw [hphase]
    exact List.Perm.refl _
  | mobTracked hphase =>
    rw [hphase]
    exact List.Perm.refl _

/-- The links of the mobs that were there stay as they are, and a new mob that rides another has just been put on it. -/
theorem Steps.vehicleOf (hstep : Steps c h c' h' deed) :
    (r.slot < h.mobs.size → h'.vehicleOf r = h.vehicleOf r) ∧
      (deed = .numbered r → h'.vehicleOf r = some v → c'.phase = .seated r v) := by
  cases hstep with
  | begun hphase hleft d source hdraft =>
    refine ⟨fun hr => Herd.read_add_of_lt hr, fun hr hv => ?_⟩
    cases hr
    rw [Herd.vehicleOf, Herd.read_add_nextRef] at hv
    cases hv
  | @seated mob position seed hphase =>
    have hread : ∀ q, ((h.add (Mob.spawn position riderLifetime seed)).mount h.nextRef mob).vehicleOf q =
        if h.nextRef.slot = q.slot then (h.add (Mob.spawn position riderLifetime seed)).read q none fun _ => some mob
        else (h.add (Mob.spawn position riderLifetime seed)).vehicleOf q := by
      intro q
      simp only [Herd.vehicleOf, Herd.mount, Herd.read_update, Function.comp_def, ite_self]
    rw [hread]
    refine ⟨fun hr => ?_, fun hr hv => ?_⟩
    · have hne : h.nextRef.slot ≠ r.slot := Nat.ne_of_gt hr
      rw [if_neg hne]
      exact Herd.read_add_of_lt hr
    · cases hr
      rw [if_pos rfl, Herd.read_add_nextRef] at hv
      rw [← Option.some.inj hv]
  | riderTracked hphase => exact ⟨fun _ => rfl, fun hr => by cases hr⟩
  | mobTracked hphase => exact ⟨fun _ => rfl, fun hr => by cases hr⟩

/-- Once a rider has been put on its vehicle, it is handed over. -/
theorem Steps.of_seated (hstep : Steps c h c' h' deed) (hseated : c.phase = .seated r v) :
    c'.phase = .rest v ∧ deed.tracked? = some r := by
  cases hstep with
  | begun hphase | seated hphase | mobTracked hphase =>
    rw [hphase] at hseated
    cases hseated
  | riderTracked hphase =>
    rw [hphase] at hseated
    cases hseated
    exact ⟨rfl, rfl⟩

theorem Steps.of_rest (hstep : Steps c h c' h' deed) (hrest : c.phase = .rest v) : deed.tracked? = some v := by
  cases hstep with
  | begun hphase | seated hphase | riderTracked hphase =>
    rw [hphase] at hrest
    cases hrest
  | mobTracked hphase =>
    rw [hphase] at hrest
    cases hrest
    rfl

/-- The call hands over nobody between a rider and its vehicle. -/
theorem Steps.seats (hstep : Steps c h c' h' deed) {done : List MobRef} (hseats : c.Seats done r v) :
    c'.Seats (done ++ deed.tracked?.toList) r v := by
  rcases hseats with hseated | ⟨hrest, earlier, rfl⟩ | hdone
  · obtain ⟨hrest, hdeed⟩ := hstep.of_seated hseated
    rw [hdeed]
    exact .inr (.inl ⟨hrest, List.suffix_append _ _⟩)
  · rw [hstep.of_rest hrest]
    refine .inr (.inr (List.IsSuffix.isInfix ⟨earlier, ?_⟩))
    show earlier ++ ([r] ++ [v]) = earlier ++ [r] ++ [v]
    rw [List.append_assoc]
  · exact .inr (.inr (hdone.trans (List.prefix_append _ _).isInfix))

/-- A step adds at most what the call has room for. -/
theorem Steps.upper (hstep : Steps c h c' h' deed) :
    c'.added + min 2 c'.phase.todo + 2 * c'.left ≤ c.added + min 2 c.phase.todo + 2 * c.left := by
  have hcount : ∀ b : Bool, b.toNat ≤ 1 := Bool.toNat_le
  cases hstep with
  | @begun left hphase hleft d source hdraft =>
    have hroom : min 2 (Phase.ofDraft h.nextRef d).todo ≤ 2 := Nat.min_le_left _ _
    rw [hphase, hleft]
    show c.added + min 2 (Phase.ofDraft h.nextRef d).todo + 2 * left ≤ c.added + min 2 0 + 2 * (left + 1)
    omega
  | seated hphase =>
    rw [hphase]
    exact Nat.le_refl _
  | @riderTracked rider mob hphase =>
    have hnew := hcount (h.track rider).1
    rw [hphase]
    show c.added + (h.track rider).1.toNat + min 2 1 + 2 * c.left ≤ c.added + min 2 2 + 2 * c.left
    omega
  | @mobTracked mob hphase =>
    have hnew := hcount (h.track mob).1
    rw [hphase]
    show c.added + (h.track mob).1.toNat + min 2 0 + 2 * c.left ≤ c.added + min 2 1 + 2 * c.left
    omega

/-- A mob that is handed over and not refused is counted. -/
theorem Steps.added (hstep : Steps c h c' h' deed) (hnew : deed.refused = false) :
    c'.added = c.added + deed.tracked?.toList.length := by
  cases hstep with
  | begun hphase hleft d source hdraft => rfl
  | seated hphase => rfl
  | @riderTracked rider mob hphase =>
    have htrue : (h.track rider).1 = true := by simpa [Deed.refused] using hnew
    rw [htrue]
    rfl
  | @mobTracked mob hphase =>
    have htrue : (h.track mob).1 = true := by simpa [Deed.refused] using hnew
    rw [htrue]
    rfl

/-- A step whose mob is not refused brings the call no farther from its order. -/
theorem Steps.lower (hstep : Steps c h c' h' deed) (hnew : deed.refused = false) :
    c.added + min 1 c.phase.todo + c.left ≤ c'.added + min 1 c'.phase.todo + c'.left := by
  have hadded := hstep.added hnew
  rw [hadded]
  cases hstep with
  | @begun left hphase hleft d source hdraft =>
    have hopen : 1 ≤ (Phase.ofDraft h.nextRef d).todo := by
      unfold Phase.ofDraft
      split <;> simp [Phase.todo]
    rw [hphase, hleft]
    show c.added + min 1 0 + (left + 1) ≤ c.added + 0 + min 1 (Phase.ofDraft h.nextRef d).todo + left
    omega
  | seated hphase =>
    rw [hphase]
    exact Nat.le_refl _
  | riderTracked hphase =>
    rw [hphase]
    show c.added + min 1 2 + c.left ≤ c.added + 1 + min 1 1 + c.left
    omega
  | mobTracked hphase =>
    rw [hphase]
    show c.added + min 1 1 + c.left ≤ c.added + 1 + min 1 0 + c.left
    omega

theorem Steps.fulfils (hstep : Steps c h c' h' deed) {o : SpawnOrder γ} {deeds : List (Nat × Deed)}
    (hf : c.Fulfils o deeds) (i : Nat) : c'.Fulfils o (deeds ++ [(i, deed)]) := by
  refine ⟨hstep.upper.trans hf.upper, fun hnew => ?_, ?_⟩
  · rw [List.forall_mem_append, List.forall_mem_singleton] at hnew
    exact (hf.lower hnew.1).trans (hstep.lower hnew.2)
  · have hsteps := hf.steps
    have htodo := hstep.todo
    rw [List.length_append, List.length_singleton]
    omega

end Steps

end Spawning

/-! ## What calls have done -/

namespace Spawners

section Deeds

variable {γ : Type} {p : Spawners γ} {i j : Nat} {c c' : Spawning γ} {herd : Herd} {deed : Deed}

/-- The mobs that were given a number, in that order. -/
def numbered (p : Spawners γ) : List MobRef := p.deeds.filterMap (·.2.numbered?)

/-- The mobs that were handed over to be tracked, in that order. -/
def handed (p : Spawners γ) : List MobRef := p.deeds.filterMap (·.2.tracked?)

/-- What one of the calls has done. -/
def deedsOf (p : Spawners γ) (i : Nat) : List (Nat × Deed) := p.deeds.filter (·.1 == i)

/-- The mobs that one of the calls has handed over. -/
def handedBy (p : Spawners γ) (i : Nat) : List MobRef := (p.deedsOf i).filterMap (·.2.tracked?)

theorem numbered_record (p : Spawners γ) (i : Nat) (c' : Spawning γ) (herd : Herd) (deed : Deed) :
    (p.record i c' herd deed).numbered = p.numbered ++ deed.numbered?.toList := by
  unfold numbered record
  rw [List.filterMap_append]
  cases deed <;> rfl

theorem handed_record (p : Spawners γ) (i : Nat) (c' : Spawning γ) (herd : Herd) (deed : Deed) :
    (p.record i c' herd deed).handed = p.handed ++ deed.tracked?.toList := by
  unfold handed record
  rw [List.filterMap_append]
  cases deed <;> rfl

theorem deedsOf_record_self (p : Spawners γ) (i : Nat) (c' : Spawning γ) (herd : Herd) (deed : Deed) :
    (p.record i c' herd deed).deedsOf i = p.deedsOf i ++ [(i, deed)] := by
  simp [deedsOf, record]

theorem deedsOf_record_ne (p : Spawners γ) (c' : Spawning γ) (herd : Herd) (deed : Deed) (hij : i ≠ j) :
    (p.record i c' herd deed).deedsOf j = p.deedsOf j := by
  simp [deedsOf, record, hij]

theorem handedBy_record_self (p : Spawners γ) (i : Nat) (c' : Spawning γ) (herd : Herd) (deed : Deed) :
    (p.record i c' herd deed).handedBy i = p.handedBy i ++ deed.tracked?.toList := by
  unfold handedBy
  rw [deedsOf_record_self, List.filterMap_append]
  cases deed <;> rfl

theorem handedBy_sublist (p : Spawners γ) (i : Nat) : (p.handedBy i).Sublist p.handed := List.filter_sublist.filterMap _

/-- One call among the others, before and after it has taken a step. -/
theorem calls_split (hc : p.calls[i]? = some c) : ∃ before after, p.calls = before ++ c :: after ∧
    ∀ c' herd deed, (p.record i c' herd deed).calls = before ++ c' :: after := by
  obtain ⟨hi, rfl⟩ := List.getElem?_eq_some_iff.mp hc
  refine ⟨p.calls.take i, p.calls.drop (i + 1), ?_, fun c' herd deed => ?_⟩
  · rw [← List.drop_eq_getElem_cons hi, List.take_append_drop]
  · show p.calls.set i c' = _
    rw [List.set_eq_take_append_cons_drop, if_pos hi]

end Deeds

/-! ## Numbers and riders -/

/-- What several calls have done to a herd that was `h` before them. -/
structure Ledger {γ : Type} (h : Herd) (p : Spawners γ) : Prop where
  next : p.herd.nextRef = h.handle p.numbered.length
  numbers : p.numbered = (List.range p.numbered.length).map h.handle
  held : p.numbered.Perm (p.handed ++ p.calls.flatMap (·.phase.held))
  members : ∀ id, id ∈ p.herd.tracked.members ↔ id ∈ h.tracked.members ∨ ∃ r ∈ p.handed, r.id = id
  callers : ∀ x ∈ p.deeds, x.1 < p.calls.length
  seats : ∀ r ∈ p.numbered, ∀ v, p.herd.vehicleOf r = some v →
    ∃ (i : Nat) (c : Spawning γ), p.calls[i]? = some c ∧ c.Seats (p.handedBy i) r v

section Ledger

variable {γ : Type} {h : Herd} {orders : List (SpawnOrder γ)} {p : Spawners γ} {i : Nat} {c c' : Spawning γ} {herd : Herd}
  {deed : Deed} {r v : MobRef}

theorem ledger_start (h : Herd) (orders : List (SpawnOrder γ)) : (start h orders).Ledger h where
  next := h.handle_zero.symm
  numbers := rfl
  held := by
    have hnone : (start h orders).calls.flatMap (·.phase.held) = [] := by
      rw [List.flatMap_eq_nil_iff]
      intro c hc
      obtain ⟨o, -, rfl⟩ := List.mem_map.mp hc
      rfl
    rw [hnone]
    exact List.Perm.refl _
  members id := by simp [start, handed]
  callers := nofun
  seats := nofun

/-- A mob with a number is kept. -/
theorem Ledger.slot_lt (hl : p.Ledger h) (hr : r ∈ p.numbered) : r.slot < p.herd.mobs.size := by
  have hsize : p.herd.mobs.size = h.mobs.size + p.numbered.length := congrArg MobRef.slot hl.next
  rw [hl.numbers] at hr
  obtain ⟨k, hk, rfl⟩ := List.mem_map.mp hr
  have hlt := List.mem_range.mp hk
  show h.mobs.size + k < _
  omega

theorem Ledger.numbered_nodup (hl : p.Ledger h) : p.numbered.Nodup := by
  rw [hl.numbers]
  exact List.nodup_range.map fun a b hab => Nat.add_left_cancel (congrArg MobRef.slot hab)

/-- No mob is handed over twice, or after the call has let it go. -/
theorem Ledger.handed_nodup (hl : p.Ledger h) : (p.handed ++ p.calls.flatMap (·.phase.held)).Nodup :=
  hl.held.nodup_iff.mp hl.numbered_nodup

/-- What a new mob rides is new itself; and once it is handed over, its rider stands right before it among the mobs of one
call. -/
theorem Ledger.seated (hl : p.Ledger h) (hr : r ∈ p.numbered) (hv : p.herd.vehicleOf r = some v) :
    v ∈ p.numbered ∧ (v ∈ p.handed → ∃ i < p.calls.length, [r, v] <:+: p.handedBy i) := by
  obtain ⟨i, c, hc, hseats⟩ := hl.seats r hr v hv
  have hheld : v ∈ c.phase.held →
      v ∈ p.numbered ∧ (v ∈ p.handed → ∃ i < p.calls.length, [r, v] <:+: p.handedBy i) := by
    intro hheld
    have hall : v ∈ p.calls.flatMap (·.phase.held) := List.mem_flatMap.mpr ⟨c, List.mem_of_getElem? hc, hheld⟩
    refine ⟨hl.held.mem_iff.mpr (List.mem_append_right _ hall), fun hhanded => ?_⟩
    exact ((List.nodup_append.mp hl.handed_nodup).2.2 v hhanded v hall rfl).elim
  rcases hseats with hseated | ⟨hrest, -⟩ | hdone
  · exact hheld (by simp [hseated, Phase.held])
  · exact hheld (by simp [hrest, Phase.held])
  · have hmem : v ∈ p.handed := (hdone.sublist.trans (handedBy_sublist p i)).subset (by simp)
    exact ⟨hl.held.mem_iff.mpr (List.mem_append_left _ hmem), fun _ => ⟨i, (List.getElem?_eq_some_iff.mp hc).1, hdone⟩⟩

/-- A call by itself has done all that was done. -/
theorem Ledger.handedBy_alone (hl : p.Ledger h) (hone : p.calls.length = 1) : p.handedBy 0 = p.handed := by
  unfold handedBy deedsOf handed
  rw [List.filter_eq_self.mpr]
  intro x hx
  have hlt := hl.callers x hx
  rw [hone] at hlt
  have hzero : x.1 = 0 := by omega
  rw [hzero]
  rfl

/-- All that was given a number has been handed over once every call has returned. -/
theorem Ledger.returned (hl : p.Ledger h) (hall : ∀ c ∈ p.calls, c.todo = 0) : p.numbered.Perm p.handed := by
  have hnone : p.calls.flatMap (·.phase.held) = [] := by
    rw [List.flatMap_eq_nil_iff]
    intro c hc
    have hdone := hall c hc
    unfold Spawning.todo at hdone
    cases hphase : c.phase with
    | ready => rfl
    | numbered mob position seed => simp [hphase, Phase.todo] at hdone
    | seated rider mob => simp [hphase, Phase.todo] at hdone
    | rest mob => simp [hphase, Phase.todo] at hdone
  have hheld := hl.held
  rwa [hnone, List.append_nil] at hheld

variable [WordSource γ]

theorem Ledger.held_record (hl : p.Ledger h) (hc : p.calls[i]? = some c) (hstep : c.Steps p.herd c' herd deed) :
    (p.record i c' herd deed).numbered.Perm
      ((p.record i c' herd deed).handed ++ (p.record i c' herd deed).calls.flatMap (·.phase.held)) := by
  obtain ⟨before, after, hcalls, hrecord⟩ := calls_split hc
  have hbefore := hl.held
  rw [hcalls] at hbefore
  rw [numbered_record, handed_record, hrecord]
  have hone := hstep.held
  rw [List.perm_iff_count] at hbefore hone ⊢
  intro r
  have hall := hbefore r
  have hmine := hone r
  simp only [List.flatMap_append, List.flatMap_cons, List.count_append] at hall hmine ⊢
  omega

theorem Ledger.seats_record (hl : p.Ledger h) (hc : p.calls[i]? = some c) (hstep : c.Steps p.herd c' herd deed) :
    ∀ r ∈ (p.record i c' herd deed).numbered, ∀ v, herd.vehicleOf r = some v →
      ∃ (j : Nat) (d : Spawning γ), (p.record i c' herd deed).calls[j]? = some d ∧
        d.Seats ((p.record i c' herd deed).handedBy j) r v := by
  have hself : (p.record i c' herd deed).calls[i]? = some c' := calls_record_self hc c' herd deed
  intro r hr v hv
  obtain ⟨hold, hnew⟩ := hstep.vehicleOf (r := r) (v := v)
  rw [numbered_record] at hr
  rcases List.mem_append.mp hr with hr | hr
  · rw [hold (hl.slot_lt hr)] at hv
    obtain ⟨j, d, hd, hseats⟩ := hl.seats r hr v hv
    by_cases hij : i = j
    · subst hij
      obtain rfl : d = c := Option.some.inj (hd.symm.trans hc)
      refine ⟨i, c', hself, ?_⟩
      rw [handedBy_record_self]
      exact hstep.seats hseats
    · refine ⟨j, d, (calls_record_ne p hij c' herd deed).trans hd, ?_⟩
      unfold handedBy
      rw [deedsOf_record_ne _ _ _ _ hij]
      exact hseats
  · obtain rfl : deed = .numbered r := by
      cases deed with
      | numbered q => rw [List.mem_singleton.mp hr]
      | tracked q isNew => cases hr
    exact ⟨i, c', hself, .inl (hnew rfl hv)⟩

theorem Ledger.record (hl : p.Ledger h) (hc : p.calls[i]? = some c) (hstep : c.Steps p.herd c' herd deed) :
    (p.record i c' herd deed).Ledger h where
  next := by
    rw [numbered_record]
    rcases hstep.cases_herd with ⟨rfl, hnext, -⟩ | ⟨r, -, rfl, rfl⟩
    · show herd.nextRef = h.handle (p.numbered ++ [p.herd.nextRef]).length
      rw [hnext, hl.next, List.length_append, List.length_singleton, Herd.handle_succ]
    · show p.herd.nextRef = h.handle (p.numbered ++ []).length
      rw [List.append_nil]
      exact hl.next
  numbers := by
    rw [numbered_record]
    rcases hstep.cases_herd with ⟨rfl, -, -⟩ | ⟨r, -, rfl, -⟩
    · show p.numbered ++ [p.herd.nextRef] = (List.range (p.numbered ++ [p.herd.nextRef]).length).map h.handle
      rw [List.length_append, List.length_singleton, List.range_succ, List.map_append, ← hl.numbers, hl.next]
      rfl
    · show p.numbered ++ [] = (List.range (p.numbered ++ []).length).map h.handle
      rw [List.append_nil]
      exact hl.numbers
  held := hl.held_record hc hstep
  members id := by
    rw [handed_record]
    rcases hstep.cases_herd with ⟨rfl, -, htracked⟩ | ⟨r, -, rfl, rfl⟩
    · show id ∈ herd.tracked.members ↔ _
      rw [htracked, hl.members]
      show _ ↔ _ ∨ ∃ r ∈ p.handed ++ [], r.id = id
      rw [List.append_nil]
    · show id ∈ (p.herd.tracked.insert r).2.members ↔ _ ∨ ∃ q ∈ p.handed ++ [r], q.id = id
      rw [Tracked.mem_members_insert, hl.members, or_assoc]
      simp only [List.mem_append, List.mem_singleton, or_and_right, exists_or, exists_eq_left]
      rw [eq_comm (a := id)]
      rfl
  callers x hx := by
    show x.1 < (p.calls.set i c').length
    rw [List.length_set]
    rcases List.mem_append.mp hx with hx | hx
    · exact hl.callers x hx
    · rw [List.mem_singleton.mp hx]
      exact (List.getElem?_eq_some_iff.mp hc).1
  seats := hl.seats_record hc hstep

theorem ledger_run (h : Herd) (orders : List (SpawnOrder γ)) (turns : List Nat) :
    ((start h orders).run turns).Ledger h :=
  run_induction turns (ledger_start h orders) fun hc hstep hl => hl.record hc hstep

/-- Each call is on its way to what it was ordered to do. -/
theorem run_fulfils (h : Herd) (turns : List Nat) {o : SpawnOrder γ} (ho : orders[i]? = some o) :
    ∃ c, ((start h orders).run turns).calls[i]? = some c ∧ c.Fulfils o (((start h orders).run turns).deedsOf i) := by
  refine run_induction (motive := fun q => ∃ c, q.calls[i]? = some c ∧ c.Fulfils o (q.deedsOf i)) turns
    ⟨o.start, calls_start h ho, Spawning.fulfils_start o⟩ ?_
  rintro q j d d' herd deed hd hstep ⟨c, hc, hf⟩
  by_cases hji : j = i
  · subst hji
    obtain rfl : d = c := Option.some.inj (hd.symm.trans hc)
    refine ⟨d', calls_record_self hd _ _ _, ?_⟩
    rw [deedsOf_record_self]
    exact hstep.fulfils hf j
  · refine ⟨c, (calls_record_ne q hji _ _ _).trans hc, ?_⟩
    rw [deedsOf_record_ne _ _ _ _ hji]
    exact hf

theorem length_calls_run (h : Herd) (orders : List (SpawnOrder γ)) (turns : List Nat) :
    ((start h orders).run turns).calls.length = orders.length :=
  run_induction (motive := fun q => q.calls.length = orders.length) turns (List.length_map _)
    fun _ _ hlength => List.length_set.trans hlength

end Ledger

/-! ## As long as the numbers are free -/

/-- The numbers that were given do not come round again, and none of them was tracked before. -/
structure Free {γ : Type} (h : Herd) (p : Spawners γ) : Prop where
  room : p.numbered.length ≤ UInt32.size
  untracked : ∀ r ∈ p.numbered, h.tracked.contains r = false

/-- Every mob that was handed over is tracked, at the end, and counted. -/
structure Accepted {γ : Type} (h : Herd) (p : Spawners γ) : Prop where
  unrefused : ∀ x ∈ p.deeds, x.2.refused = false
  tracked : p.herd.tracked.toList = h.tracked.toList ++ p.handed
  added : (p.calls.map (·.added)).sum = p.handed.length

section Free

variable {γ : Type} {h : Herd} {orders : List (SpawnOrder γ)} {p : Spawners γ} {i : Nat} {c c' : Spawning γ} {herd : Herd}
  {deed : Deed} {r : MobRef}

theorem Free.of_record (hfree : (p.record i c' herd deed).Free h) : p.Free h := by
  obtain ⟨hroom, huntracked⟩ := hfree
  rw [numbered_record] at hroom huntracked
  refine ⟨?_, fun r hr => huntracked r (List.mem_append_left _ hr)⟩
  rw [List.length_append] at hroom
  omega

theorem Ledger.ids_nodup (hl : p.Ledger h) (hfree : p.Free h) : (p.numbered.map MobRef.id).Nodup := by
  have hids := h.handle_ids_nodup hfree.room
  rwa [← hl.numbers] at hids

/-- A mob in the hands of a call is not tracked, nor is another of its number. -/
theorem Ledger.contains_held (hl : p.Ledger h) (hfree : p.Free h) (hc : p.calls[i]? = some c) (hr : r ∈ c.phase.held) :
    p.herd.tracked.contains r = false := by
  have hheld : r ∈ p.calls.flatMap (·.phase.held) := List.mem_flatMap.mpr ⟨c, List.mem_of_getElem? hc, hr⟩
  have hids := (hl.held.map MobRef.id).nodup_iff.mp (hl.ids_nodup hfree)
  rw [List.map_append, List.nodup_append] at hids
  rw [Bool.eq_false_iff]
  intro hcontains
  rcases (hl.members r.id).mp (Std.ExtTreeSet.contains_iff_mem.mp hcontains) with hold | ⟨q, hq, hid⟩
  · have huntracked := hfree.untracked r (hl.held.mem_iff.mpr (List.mem_append_right _ hheld))
    rw [Bool.eq_false_iff] at huntracked
    exact huntracked (Std.ExtTreeSet.contains_iff_mem.mpr hold)
  · exact hids.2.2 q.id (List.mem_map_of_mem hq) r.id (List.mem_map_of_mem hheld) hid

theorem accepted_start (h : Herd) (orders : List (SpawnOrder γ)) : (start h orders).Accepted h where
  unrefused := nofun
  tracked := (List.append_nil _).symm
  added := by
    show ((orders.map SpawnOrder.start).map (·.added)).sum = 0
    rw [List.map_map]
    refine List.sum_eq_zero fun n hn => ?_
    obtain ⟨o, -, rfl⟩ := List.mem_map.mp hn
    rfl

variable [WordSource γ]

theorem Accepted.record (ha : p.Accepted h) (hl : p.Ledger h) (hfree : p.Free h) (hc : p.calls[i]? = some c)
    (hstep : c.Steps p.herd c' herd deed) : (p.record i c' herd deed).Accepted h := by
  obtain ⟨hnew, htracked⟩ : deed.refused = false ∧
      herd.tracked.toList = p.herd.tracked.toList ++ deed.tracked?.toList := by
    rcases hstep.cases_herd with ⟨rfl, -, hsame⟩ | ⟨r, hr, rfl, rfl⟩
    · refine ⟨rfl, ?_⟩
      rw [hsame]
      exact (List.append_nil _).symm
    · have hfresh := hl.contains_held hfree hc hr
      constructor
      · show (!(p.herd.tracked.insert r).1) = false
        rw [Tracked.insert_fst, hfresh]
        rfl
      · show (p.herd.tracked.insert r).2.toList = _
        rw [Tracked.toList_insert, hfresh]
        rfl
  refine ⟨?_, ?_, ?_⟩
  · -- nothing has been refused
    show ∀ x ∈ p.deeds ++ [(i, deed)], x.2.refused = false
    rw [List.forall_mem_append, List.forall_mem_singleton]
    exact ⟨ha.unrefused, hnew⟩
  · -- what has been handed over is tracked
    show herd.tracked.toList = _
    rw [htracked, ha.tracked, handed_record, List.append_assoc]
  · -- the calls have counted it
    obtain ⟨before, after, hcalls, hrecord⟩ := calls_split hc
    have hsum := ha.added
    have hone := hstep.added hnew
    rw [hcalls] at hsum
    rw [hrecord, handed_record, List.length_append]
    simp only [List.map_append, List.map_cons, List.sum_append, List.sum_cons] at hsum ⊢
    omega

theorem run_accepted (h : Herd) (orders : List (SpawnOrder γ)) (turns : List Nat)
    (hfree : ((start h orders).run turns).Free h) : ((start h orders).run turns).Accepted h := by
  -- the numbers that are free at the end were free all the way
  have hrun : ((start h orders).run turns).Ledger h ∧
      (((start h orders).run turns).Free h → ((start h orders).run turns).Accepted h) := by
    refine run_induction (motive := fun q => q.Ledger h ∧ (q.Free h → q.Accepted h)) turns
      ⟨ledger_start h orders, fun _ => accepted_start h orders⟩ ?_
    rintro q i c c' herd deed hc hstep ⟨hl, ha⟩
    exact ⟨hl.record hc hstep, fun hfree => (ha hfree.of_record).record hl hfree.of_record hc hstep⟩
  exact hrun.2 hfree

end Free

/-! ## What several calls come to -/

/-- What several calls have done to a herd after these turns. -/
structure Accounted {γ : Type} [WordSource γ] (h : Herd) (orders : List (SpawnOrder γ)) (turns : List Nat)
    (p : Spawners γ) : Prop where
  distinct : (p.numbered.map MobRef.id).Nodup
  unrefused : ∀ x ∈ p.deeds, x.2.refused = false
  once : p.handed.Nodup
  tracked : p.herd.tracked.toList = h.tracked.toList ++ p.handed
  growth : p.herd.tracked.size = h.tracked.size + (p.calls.map (·.added)).sum
  returned : ∀ ns : List Nat, p.calls.map Spawning.returned? = ns.map some →
    p.herd.tracked.size = h.tracked.size + ns.sum ∧ p.numbered.Perm p.handed
  calls : ∀ i o, orders[i]? = some o →
    ∃ c : Spawning γ, p.calls[i]? = some c ∧ c.Called o (p.deedsOf i) (turns.count i)
  riders : ∀ r ∈ p.numbered, ∀ v, p.herd.vehicleOf r = some v → v ∈ p.numbered ∧
    (v ∈ p.handed → [r, v].Sublist p.handed)
  alone : ∀ o, orders = [o] →
    (∀ r ∈ p.numbered, ∀ v, p.herd.vehicleOf r = some v → v ∈ p.handed → [r, v] <:+: p.handed) ∧
    ∀ c : Spawning γ, p.calls = [c] → ∀ n, c.returned? = some n →
      spawnBatch o.centers o.count h o.source = (n, p.herd, c.source)

section Accounted

variable {γ : Type} [WordSource γ]

/-- Calls add mobs to a herd side by side, in any order of their steps, and no number comes round again or was tracked
before.  Then the mobs have different numbers.  Each mob that is handed over is tracked, behind those before it.  So as
many more are tracked as the calls count, and when all have returned, these are all that were given a number.  A call
returns after four turns for each mob; by then it has added each of its mobs with at most one rider, or nothing if it has
no cell to put them near.  A rider is tracked before its vehicle, and right before it when there is no other call.  A
single call does what `spawnBatch` does. -/
theorem spawners_accounted {γ : Type} [WordSource γ] (h : Herd) (orders : List (SpawnOrder γ)) (turns : List Nat)
    (hfree : ((start h orders).run turns).Free h) : ((start h orders).run turns).Accounted h orders turns := by
  have hl := ledger_run h orders turns
  have ha := run_accepted h orders turns hfree
  have hlength := length_calls_run h orders turns
  have hgrowth : ((start h orders).run turns).herd.tracked.size =
      h.tracked.size + (((start h orders).run turns).calls.map (·.added)).sum := by
    have hcount := congrArg List.length ha.tracked
    rwa [List.length_append, ← ha.added] at hcount
  refine ⟨hl.ids_nodup hfree, ha.unrefused, (List.nodup_append.mp hl.handed_nodup).1, ha.tracked, hgrowth,
    fun ns hns => ?_, fun i o ho => ?_, fun r hr v hv => ?_, ?_⟩
  · obtain ⟨hdone, hadded⟩ := Spawning.added_of_returned hns
    exact ⟨by rw [hgrowth, hadded], hl.returned hdone⟩
  · obtain ⟨c, hc, hf⟩ := run_fulfils h turns ho
    obtain ⟨c', hc', htodo⟩ := run_todo turns (calls_start h ho)
    obtain rfl : c' = c := Option.some.inj (hc'.symm.trans hc)
    exact ⟨c', hc, hf.called (fun x hx => ha.unrefused x (List.mem_filter.mp hx).1) htodo⟩
  · obtain ⟨hnumbered, hbefore⟩ := hl.seated hr hv
    refine ⟨hnumbered, fun hhanded => ?_⟩
    obtain ⟨i, -, hinfix⟩ := hbefore hhanded
    exact hinfix.sublist.trans (handedBy_sublist _ i)
  · rintro o rfl
    have hone := length_calls_run h [o] turns
    refine ⟨fun r hr v hv hhanded => ?_, fun c hc n hn => spawnBatch_of_returned hc hn⟩
    obtain ⟨i, hi, hinfix⟩ := (hl.seated hr hv).2 hhanded
    obtain rfl : i = 0 := Nat.lt_one_iff.mp (hi.trans_eq hone)
    rwa [hl.handedBy_alone hone] at hinfix

/-- A call adds a mob with its rider while another adds one that gets its number and is tracked in between. -/
theorem spawners_accounted_sideBySide :
    let h : Herd := ⟨#[Mob.spawn ⟨0, 0⟩ 40 1], Tracked.ofList [⟨0, 2⟩], 5⟩
    let orders : List (SpawnOrder ChaCha) := [⟨#[Cell.origin], 1, .ofSeed 6⟩, ⟨#[Cell.origin], 1, .ofSeed 7⟩]
    let turns := [0, 1, 0, 0, 1, 0]
    let p := (start h orders).run turns
    p.Free h ∧ p.Accounted h orders turns ∧ p.calls.map Spawning.returned? = [some 2, some 1] ∧
      p.handed.map MobRef.id = [7, 6, 5] := by
  intro h orders turns p
  obtain ⟨hnumbered, hhanded, hreturned⟩ : p.numbered = [⟨1, 5⟩, ⟨2, 6⟩, ⟨3, 7⟩] ∧
      p.handed.map MobRef.id = [7, 6, 5] ∧ p.calls.map Spawning.returned? = [some 2, some 1] := by
    decide +kernel
  have hfree : p.Free h := by
    constructor
    · rw [hnumbered]
      decide
    · rw [hnumbered]
      decide +kernel
  exact ⟨hfree, spawners_accounted h orders turns hfree, hreturned, hhanded⟩

end Accounted

end Spawners

end GridTick.Synthetic
