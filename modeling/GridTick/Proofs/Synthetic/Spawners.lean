import GridTick.Proofs.Synthetic.Riders

/-!
# GridTick.Proofs.Synthetic.Spawners — several calls add mobs side by side

Calls that add mobs share the herd: the next number, and the tracked mobs.  Each of them goes from mob to mob as if it were
alone, but between any two steps that touch what is shared the others may do theirs.

* `Spawning`, `Spawning.step?`: a call under way, and its next step.  `Spawning.Steps` says what a step may be.
* `Spawners`, `Spawners.turn`, `Spawners.run`: calls at work, whose turn it is, and a record of what they have done.
* `Spawners.run_induction`: what every step keeps.
* `Spawning.todo`, `Spawners.run_todo`: a call returns after four turns for each mob, whatever the others do.
* `Spawning.finish`, `Spawners.spawnBatch_of_returned`: a call by itself comes to what `spawnBatch` gives.
-/

namespace GridTick.Synthetic

/-- What a call does to what it shares with the others. -/
inductive Deed where
  /-- A number is taken for a mob. -/
  | numbered (r : MobRef)
  /-- A mob is handed over to be tracked, with the answer. -/
  | tracked (r : MobRef) (isNew : Bool)
deriving DecidableEq, Repr

/-- Where a call stands with the mob that it adds. -/
inductive Phase where
  /-- Between two mobs. -/
  | ready
  /-- The mob has a number, and its rider is to get the next one that is free. -/
  | numbered (mob : MobRef) (position : Position) (riderSeed : UInt64)
  /-- The rider has been put on the mob. -/
  | seated (rider mob : MobRef)
  /-- Nothing is left but to track the mob itself. -/
  | rest (mob : MobRef)

/-- What a call is to do: so many mobs round these cells, drawn from this source. -/
structure SpawnOrder (γ : Type) where
  centers : Array Cell
  count : Nat
  source : γ

/-- A call under way, with the mobs that it has not begun and the number of those newly tracked. -/
structure Spawning (γ : Type) where
  centers : Array Cell
  left : Nat
  phase : Phase
  added : Nat
  source : γ

/-- Calls at work on one herd, and what they have done so far, each deed with the place of its call. -/
structure Spawners (γ : Type) where
  herd : Herd
  calls : List (Spawning γ)
  deeds : List (Nat × Deed)

variable {γ : Type}

/-- The number of mobs that a call adds, riders aside: none without a cell to put them near. -/
def SpawnOrder.mobs (o : SpawnOrder γ) : Nat := if o.centers.isEmpty then 0 else o.count

def SpawnOrder.start (o : SpawnOrder γ) : Spawning γ := ⟨o.centers, o.mobs, .ready, 0, o.source⟩

/-- A mob that has its number waits for its rider, or is tracked next. -/
def Phase.ofDraft (mob : MobRef) (d : Draft) : Phase :=
  match d.riderSeed with
  | none => .rest mob
  | some seed => .numbered mob d.position seed

/-- What is still to be done for the mob in hand. -/
def Phase.todo : Phase → Nat
  | .ready => 0
  | .numbered .. => 3
  | .seated .. => 2
  | .rest _ => 1

namespace Spawning

/-- A bound on the steps that are left. -/
def todo (c : Spawning γ) : Nat := 4 * c.left + c.phase.todo

/-- What a call gives back when it has done everything. -/
def returned? (c : Spawning γ) : Option Nat := if c.todo = 0 then some c.added else none

theorem returned?_eq_some_iff {c : Spawning γ} {n : Nat} : c.returned? = some n ↔ c.todo = 0 ∧ c.added = n := by
  unfold returned?
  split
  · rename_i hdone
    simp [hdone]
  · rename_i hbusy
    simp [hbusy]

variable [WordSource γ]

/-- The next step of a call, if it has one: its state, the herd, and the deed. -/
def step? (c : Spawning γ) (h : Herd) : Option (Spawning γ × Herd × Deed) :=
  match c.phase with
  | .ready =>
    match c.left with
    | 0 => none
    | left + 1 =>
      let (d, source) := drawDraft c.centers c.source
      let (id, h) := h.takeId
      let (mob, h) := h.keep id (Mob.spawn d.position d.lifetime d.seed)
      some ({ c with left, phase := .ofDraft mob d, source }, h, .numbered mob)
  | .numbered mob position seed =>
    let (id, h) := h.takeId
    let (rider, h) := h.keep id (Mob.spawn position riderLifetime seed)
    some ({ c with phase := .seated rider mob }, h.mount rider mob, .numbered rider)
  | .seated rider mob =>
    let (isNew, h) := h.track rider
    some ({ c with phase := .rest mob, added := c.added + isNew.toNat }, h, .tracked rider isNew)
  | .rest mob =>
    let (isNew, h) := h.track mob
    some ({ c with phase := .ready, added := c.added + isNew.toNat }, h, .tracked mob isNew)

/-- All that a step may be. -/
inductive Steps (c : Spawning γ) (h : Herd) : Spawning γ → Herd → Deed → Prop
  | begun {left : Nat} (hphase : c.phase = .ready) (hleft : c.left = left + 1) (d : Draft) (source : γ)
      (hdraft : drawDraft c.centers c.source = (d, source)) :
    Steps c h { c with left, phase := .ofDraft h.nextRef d, source } (h.add (Mob.spawn d.position d.lifetime d.seed))
      (.numbered h.nextRef)
  | seated {mob : MobRef} {position : Position} {seed : UInt64} (hphase : c.phase = .numbered mob position seed) :
    Steps c h { c with phase := .seated h.nextRef mob }
      ((h.add (Mob.spawn position riderLifetime seed)).mount h.nextRef mob) (.numbered h.nextRef)
  | riderTracked {rider mob : MobRef} (hphase : c.phase = .seated rider mob) :
    Steps c h { c with phase := .rest mob, added := c.added + (h.track rider).1.toNat } (h.track rider).2
      (.tracked rider (h.track rider).1)
  | mobTracked {mob : MobRef} (hphase : c.phase = .rest mob) :
    Steps c h { c with phase := .ready, added := c.added + (h.track mob).1.toNat } (h.track mob).2
      (.tracked mob (h.track mob).1)

/-- A call has nothing left to do, or it takes a step. -/
theorem step?_cases (c : Spawning γ) (h : Herd) : (c.step? h = none ∧ c.todo = 0) ∨
    ∃ c' h' deed, c.step? h = some (c', h', deed) ∧ Steps c h c' h' deed := by
  obtain ⟨centers, left, phase, added, source⟩ := c
  cases phase with
  | ready =>
    cases left with
    | zero => exact .inl ⟨rfl, rfl⟩
    | succ left =>
      -- with the draw opened, nothing has to be computed to see what the step is
      cases hdraft : drawDraft centers source with
      | mk d source' =>
        refine .inr ⟨_, _, _, ?_, .begun rfl rfl d source' hdraft⟩
        unfold step?
        dsimp only
        rw [hdraft]
        rfl
  | numbered mob position seed => exact .inr ⟨_, _, _, rfl, .seated rfl⟩
  | seated rider mob => exact .inr ⟨_, _, _, rfl, .riderTracked rfl⟩
  | rest mob => exact .inr ⟨_, _, _, rfl, .mobTracked rfl⟩

theorem Steps.todo {c c' : Spawning γ} {h h' : Herd} {deed : Deed} (hstep : Steps c h c' h' deed) :
    c'.todo + 1 ≤ c.todo := by
  unfold Spawning.todo
  cases hstep with
  | begun hphase hleft d source hdraft =>
    rw [hphase, hleft]
    have hnext : (Phase.ofDraft h.nextRef d).todo ≤ 3 := by
      unfold Phase.ofDraft
      split <;> simp [Phase.todo]
    dsimp only
    omega
  | seated hphase => rw [hphase]; exact Nat.le_refl _
  | riderTracked hphase => rw [hphase]; exact Nat.le_refl _
  | mobTracked hphase => rw [hphase]; exact Nat.le_refl _

/-! ## A call by itself -/

/-- What a call comes to if nobody else does anything from now on. -/
def finish (c : Spawning γ) (h : Herd) : Nat × Herd × γ :=
  match c.phase with
  | .ready => spawnMany c.centers c.left c.added h c.source
  | .numbered mob position seed =>
    let (id, h) := h.takeId
    let (rider, h) := h.keep id (Mob.spawn position riderLifetime seed)
    let (riderNew, h) := (h.mount rider mob).track rider
    let (isNew, h) := h.track mob
    spawnMany c.centers c.left (c.added + (riderNew.toNat + isNew.toNat)) h c.source
  | .seated rider mob =>
    let (riderNew, h) := h.track rider
    let (isNew, h) := h.track mob
    spawnMany c.centers c.left (c.added + (riderNew.toNat + isNew.toNat)) h c.source
  | .rest mob =>
    let (isNew, h) := h.track mob
    spawnMany c.centers c.left (c.added + isNew.toNat) h c.source

theorem finish_start (o : SpawnOrder γ) (h : Herd) : o.start.finish h = spawnBatch o.centers o.count h o.source := by
  unfold spawnBatch
  show spawnMany o.centers o.mobs 0 h o.source = _
  unfold SpawnOrder.mobs
  split
  · rfl
  · rfl

theorem finish_returned {c : Spawning γ} (hdone : c.todo = 0) (h : Herd) : c.finish h = (c.added, h, c.source) := by
  obtain ⟨centers, left, phase, added, source⟩ := c
  unfold todo at hdone
  dsimp only at hdone
  obtain rfl : left = 0 := by omega
  cases phase with
  | ready => rfl
  | numbered mob position seed => simp [Phase.todo] at hdone
  | seated rider mob => simp [Phase.todo] at hdone
  | rest mob => simp [Phase.todo] at hdone

/-- A step leads on to the same end. -/
theorem Steps.finish {c c' : Spawning γ} {h h' : Herd} {deed : Deed} (hstep : Steps c h c' h' deed) :
    c'.finish h' = c.finish h := by
  obtain ⟨centers, left, phase, added, source⟩ := c
  cases hstep with
  | begun hphase hleft d source' hdraft =>
    obtain rfl := hphase
    obtain rfl := hleft
    obtain ⟨position, lifetime, seed, _ | riderSeed⟩ := d
    · show _ = spawnMany centers (_ + 1) added h source
      unfold spawnMany
      dsimp only at hdraft
      rw [hdraft]
      rfl
    · show _ = spawnMany centers (_ + 1) added h source
      unfold spawnMany
      dsimp only at hdraft
      rw [hdraft]
      rfl
  | seated hphase =>
    obtain rfl := hphase
    rfl
  | riderTracked hphase =>
    obtain rfl := hphase
    unfold Spawning.finish
    dsimp only
    rw [Nat.add_assoc]
  | mobTracked hphase =>
    obtain rfl := hphase
    rfl

end Spawning

/-! ## Calls in turn -/

namespace Spawners

def start (h : Herd) (orders : List (SpawnOrder γ)) : Spawners γ := ⟨h, orders.map SpawnOrder.start, []⟩

/-- The call at place `i` has come to `c'` and left the herd as it is now. -/
def record (p : Spawners γ) (i : Nat) (c' : Spawning γ) (herd : Herd) (deed : Deed) : Spawners γ :=
  ⟨herd, p.calls.set i c', p.deeds ++ [(i, deed)]⟩

variable {p : Spawners γ} {c : Spawning γ} {i : Nat}

theorem calls_start (h : Herd) {orders : List (SpawnOrder γ)} {o : SpawnOrder γ} (ho : orders[i]? = some o) :
    (start h orders).calls[i]? = some o.start := by
  show (orders.map SpawnOrder.start)[i]? = _
  rw [List.getElem?_map, ho]
  rfl

theorem calls_record_self (hc : p.calls[i]? = some c) (c' : Spawning γ) (herd : Herd) (deed : Deed) :
    (p.record i c' herd deed).calls[i]? = some c' := List.getElem?_set_self (List.getElem?_eq_some_iff.mp hc).1

theorem calls_record_ne (p : Spawners γ) {j : Nat} (hij : i ≠ j) (c' : Spawning γ) (herd : Herd) (deed : Deed) :
    (p.record i c' herd deed).calls[j]? = p.calls[j]? := List.getElem?_set_ne hij

variable [WordSource γ]

/-- The call at place `i` takes a step, if there is one that has not returned. -/
def turn (p : Spawners γ) (i : Nat) : Spawners γ :=
  match p.calls[i]? with
  | none => p
  | some c =>
    match c.step? p.herd with
    | none => p
    | some (c', herd, deed) => p.record i c' herd deed

def run (p : Spawners γ) (turns : List Nat) : Spawners γ := turns.foldl turn p

/-- A turn changes nothing when there is nothing to do, or else it is a step of one call. -/
theorem turn_cases (p : Spawners γ) (i : Nat) :
    (p.turn i = p ∧ ∀ c, p.calls[i]? = some c → c.todo = 0) ∨
      ∃ c c' herd deed, p.calls[i]? = some c ∧ c.Steps p.herd c' herd deed ∧
        p.turn i = p.record i c' herd deed := by
  unfold turn
  cases hc : p.calls[i]? with
  | none => exact .inl ⟨rfl, nofun⟩
  | some c =>
    dsimp only
    rcases c.step?_cases p.herd with ⟨hnone, hdone⟩ | ⟨c', herd, deed, hsome, hsteps⟩
    · rw [hnone]
      refine .inl ⟨rfl, fun c' hc' => ?_⟩
      rwa [← Option.some.inj hc']
    · rw [hsome]
      exact .inr ⟨c, c', herd, deed, rfl, hsteps, rfl⟩

/-- What the steps of the calls keep, a run keeps. -/
theorem run_induction {motive : Spawners γ → Prop} (turns : List Nat) (hp : motive p)
    (hrecord : ∀ {q : Spawners γ} {i : Nat} {c c' : Spawning γ} {herd : Herd} {deed : Deed},
      q.calls[i]? = some c → c.Steps q.herd c' herd deed → motive q → motive (q.record i c' herd deed)) :
    motive (p.run turns) := by
  induction turns generalizing p with
  | nil => exact hp
  | cons i rest ih =>
    show motive ((p.turn i).run rest)
    refine ih ?_
    rcases turn_cases p i with ⟨hidle, -⟩ | ⟨c, c', herd, deed, hc, hstep, hturn⟩
    · rwa [hidle]
    · rw [hturn]
      exact hrecord hc hstep hp

/-- Each turn of a call takes it one step nearer to its end, and the turns of the others take it no farther away. -/
theorem turn_todo (hc : p.calls[i]? = some c) (j : Nat) :
    ∃ c', (p.turn j).calls[i]? = some c' ∧ c'.todo ≤ c.todo - if j = i then 1 else 0 := by
  rcases turn_cases p j with ⟨hidle, hdone⟩ | ⟨c₁, c₂, herd, deed, hc₁, hsteps, hturn⟩
  · rw [hidle]
    refine ⟨c, hc, ?_⟩
    split
    · rename_i hji
      have hnone := hdone c (hji ▸ hc)
      omega
    · exact Nat.le_refl _
  · rw [hturn]
    by_cases hji : j = i
    · subst hji
      obtain rfl : c₁ = c := Option.some.inj (hc₁.symm.trans hc)
      have hstep := hsteps.todo
      refine ⟨c₂, calls_record_self hc _ _ _, ?_⟩
      rw [if_pos rfl]
      omega
    · refine ⟨c, (calls_record_ne p hji _ _ _).trans hc, ?_⟩
      rw [if_neg hji]
      exact Nat.le_refl _

theorem run_todo (turns : List Nat) (hc : p.calls[i]? = some c) :
    ∃ c', (p.run turns).calls[i]? = some c' ∧ c'.todo ≤ c.todo - turns.count i := by
  induction turns generalizing p c with
  | nil => exact ⟨c, hc, Nat.le_refl _⟩
  | cons j rest ih =>
    obtain ⟨c₁, hc₁, hle₁⟩ := turn_todo hc j
    obtain ⟨c₂, hc₂, hle₂⟩ := ih hc₁
    refine ⟨c₂, hc₂, ?_⟩
    rw [List.count_cons]
    by_cases hji : j = i
    · rw [if_pos hji] at hle₁
      rw [if_pos (beq_iff_eq.mpr hji)]
      omega
    · rw [if_neg hji] at hle₁
      rw [if_neg (mt beq_iff_eq.mp hji)]
      omega

/-- A call by itself is always on its way to the same end. -/
theorem run_alone (turns : List Nat) (hc : p.calls = [c]) :
    ∃ c', (p.run turns).calls = [c'] ∧ c'.finish (p.run turns).herd = c.finish p.herd := by
  refine run_induction (motive := fun q => ∃ c', q.calls = [c'] ∧ c'.finish q.herd = c.finish p.herd) turns
    ⟨c, hc, rfl⟩ ?_
  rintro q i c₁ c₂ herd deed hc₁ hstep ⟨d, hd, hfinish⟩
  rw [hd] at hc₁
  obtain ⟨rfl, rfl⟩ : i = 0 ∧ d = c₁ := by
    cases i with
    | zero => exact ⟨rfl, Option.some.inj hc₁⟩
    | succ i => cases hc₁
  refine ⟨c₂, ?_, hstep.finish.trans hfinish⟩
  show q.calls.set 0 c₂ = [c₂]
  rw [hd]
  rfl

/-- A call that has returned, and was alone, has done what `spawnBatch` does. -/
theorem spawnBatch_of_returned {h : Herd} {o : SpawnOrder γ} {turns : List Nat} {n : Nat}
    (hc : ((start h [o]).run turns).calls = [c]) (hn : c.returned? = some n) :
    spawnBatch o.centers o.count h o.source = (n, ((start h [o]).run turns).herd, c.source) := by
  obtain ⟨c', hc', hfinish⟩ := run_alone (p := start h [o]) turns rfl
  obtain rfl : c = c' := List.singleton_inj.mp (hc.symm.trans hc')
  obtain ⟨hdone, rfl⟩ := Spawning.returned?_eq_some_iff.mp hn
  rw [Spawning.finish_returned hdone, Spawning.finish_start] at hfinish
  exact hfinish.symm

end Spawners

end GridTick.Synthetic
