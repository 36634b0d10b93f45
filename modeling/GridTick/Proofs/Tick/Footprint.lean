import GridTick.Proofs.Tick.Ends

/-!
# GridTick.Proofs.Tick.Footprint — the calls made for a region, and runs on states that are alike

The task of a region makes calls for the keys and the entities of that region, and for the vehicles of these entities.
If those calls find the same answers in two states, and leave states that are alike again, the task does the same from
both.

* `World.AsksAbout`, `World.AsksFor`: the calls made for an entity, and for a part of a batch.
* `Program.Asks`: what a program asks in a world, and the values that it may return.
* `regionTask_asks`, `offerAll_asks`: the programs of a tick ask for their own parts only.
* `SameRun`, `Program.sameRun`: the same run from states that are alike, in one world or in two.
-/

namespace GridTick

variable {σ C E α β : Type}

/-! ## Calls and what they are for -/

/-- The calls made for an entity: those about itself, and those about vehicles that it may turn out to ride. -/
inductive World.AsksAbout (w : World σ C E) (e : E) : Call C E → Prop
  | isRemoved : w.AsksAbout e (.isRemoved e)
  | isFrozen : w.AsksAbout e (.isFrozen e)
  | checkDespawn : w.AsksAbout e (.checkDespawn e)
  | vehicle : w.AsksAbout e (.vehicle e)
  | stopRiding : w.AsksAbout e (.stopRiding e)
  | tickEntity : w.AsksAbout e (.tickEntity e)
  | isVehicleRemoved {v : E} {s : σ} (hv : (w.answer (.vehicle e) s).1 = .ok (some v)) : w.AsksAbout e (.isRemoved v)
  | hasPassenger {v : E} {s : σ} (hv : (w.answer (.vehicle e) s).1 = .ok (some v)) : w.AsksAbout e (.hasPassenger v e)

/-- The calls made for a part of a batch: for the keys and the entities of the region at a place, or for the entities
that are in no region. -/
inductive World.AsksFor (w : World σ C E) (batch : Batch E) : Option Nat → Call C E → Prop
  | lookup {i : Nat} {r : Region E} {k : Key} (hr : batch.regions[i]? = some r) (hk : k ∈ r.chunks) :
    w.AsksFor batch (some i) (.lookup k)
  | tickFound {i : Nat} {r : Region E} {k : Key} {c : C} {speed : UInt32} {s : σ} (hr : batch.regions[i]? = some r)
    (hk : k ∈ r.chunks) (hc : (w.answer (.lookup k) s).1 = .ok (some c)) : w.AsksFor batch (some i) (.tickChunk c speed)
  | tickLoaded {i : Nat} {r : Region E} {c : C} {speed : UInt32} (hr : batch.regions[i]? = some r)
    (hc : w.keyOf c ∈ r.chunks) : w.AsksFor batch (some i) (.tickChunk c speed)
  | entity {i : Nat} {r : Region E} {e : E} {call : Call C E} (hr : batch.regions[i]? = some r) (he : e ∈ r.entities)
    (hcall : w.AsksAbout e call) : w.AsksFor batch (some i) call
  | unassigned {e : E} {call : Call C E} (he : e ∈ batch.unassigned) (hcall : w.AsksAbout e call) :
    w.AsksFor batch none call

namespace Program

/-- In a world, a program makes only calls of a kind, and the values it may return satisfy `Q`. -/
def Asks (w : World σ C E) (P : Call C E → Prop) (Q : α → Prop) : Program C E α → Prop
  | .done a => Q a
  | .ask c next => P c ∧ ∀ s a, (w.answer c s).1 = .ok a → (next a).Asks w P Q
  | .mark _ rest => rest.Asks w P Q

variable {w : World σ C E} {P : Call C E → Prop} {Q : α → Prop} {Q' : β → Prop}

theorem Asks.bind {p : Program C E α} {f : α → Program C E β} (hp : p.Asks w P Q) (hf : ∀ a, Q a → (f a).Asks w P Q') :
    (p.bind f).Asks w P Q' := by
  induction p with
  | done a => exact hf a hp
  | ask c next ih => exact ⟨hp.1, fun s a ha => ih a (hp.2 s a ha)⟩
  | mark m rest ih => exact ih hp

theorem Asks.mono {P' : Call C E → Prop} {p : Program C E α} (hp : p.Asks w P Q) (h : ∀ c, P c → P' c) :
    p.Asks w P' Q := by
  induction p with
  | done a => exact hp
  | ask c next ih => exact ⟨h c hp.1, fun s a ha => ih a (hp.2 s a ha)⟩
  | mark m rest ih => exact ih hp

theorem Asks.call {c : Call C E} (hc : P c) :
    (Program.call c).Asks w P fun a => ∃ s, (w.answer c s).1 = .ok a :=
  ⟨hc, fun s _ ha => ⟨s, ha⟩⟩

theorem Asks.note (m : Mark E) : (Program.note m).Asks w P fun _ => True := trivial

/-! ## What the programs of a tick ask -/

theorem contract_asks (w : World σ C E) (e : E) : (contract e).Asks w (w.AsksAbout e) fun _ => True := by
  have hpart : (takePart e).Asks w (w.AsksAbout e) fun _ => True := by
    refine Asks.bind (.call .checkDespawn) fun _ _ => Asks.bind (.call .vehicle) fun vehicle hvehicle => ?_
    cases vehicle with
    | none => exact Asks.bind (.call .tickEntity) fun _ _ => trivial
    | some v =>
      obtain ⟨s, hv⟩ := hvehicle
      have hcarries : (stillCarries v e).Asks w (w.AsksAbout e) fun _ => True := by
        refine Asks.bind (.call (.isVehicleRemoved hv)) fun gone _ => ?_
        cases gone with
        | true => exact trivial
        | false => exact ⟨.hasPassenger hv, fun _ _ _ => trivial⟩
      refine Asks.bind hcarries fun carried _ => ?_
      cases carried with
      | true => exact trivial
      | false => exact Asks.bind (.call .stopRiding) fun _ _ => Asks.bind (.call .tickEntity) fun _ _ => trivial
  refine Asks.bind (.call .isRemoved) fun gone _ => ?_
  cases gone with
  | true => exact trivial
  | false =>
    refine Asks.bind (.call .isFrozen) fun frozen _ => ?_
    cases frozen with
    | true => exact trivial
    | false => exact hpart

theorem offerAll_asks {entities : List E} (h : ∀ e ∈ entities, ∀ c, w.AsksAbout e c → P c) :
    (offerAll entities).Asks w P fun _ => True := by
  induction entities with
  | nil => exact trivial
  | cons e rest ih =>
    have hcontract : (contract e).Asks w P fun _ => True := (contract_asks w e).mono (h e (List.mem_cons_self ..))
    have hoffer : (offer e).Asks w P fun _ => True :=
      Asks.bind (.note _) fun _ _ => Asks.bind hcontract fun _ _ => Asks.bind (.note _) fun _ _ => trivial
    exact Asks.bind hoffer fun _ _ => ih fun e' he' => h e' (List.mem_cons_of_mem _ he')

/-- Chunks found under keys, which the world may give for these keys. -/
def Found (w : World σ C E) (keys : List Key) (p : Key × C) : Prop :=
  p.1 ∈ keys ∧ ∃ s, (w.answer (.lookup p.1) s).1 = .ok (some p.2)

theorem resolve_asks {keys rest : List Key} {found : List (Key × C)} (hrest : ∀ k ∈ rest, k ∈ keys)
    (hfound : ∀ p ∈ found, Found w keys p) (hP : ∀ k ∈ keys, P (.lookup k)) :
    (resolve rest found).Asks w P fun found => ∀ p ∈ found, Found w keys p := by
  induction rest generalizing found with
  | nil => exact fun p hp => hfound p (List.mem_reverse.mp hp)
  | cons k rest ih =>
    have hrest' : ∀ k' ∈ rest, k' ∈ keys := fun k' hk' => hrest k' (List.mem_cons_of_mem _ hk')
    have hk : k ∈ keys := hrest k (List.mem_cons_self ..)
    refine Asks.bind (.call (hP k hk)) fun chunk hchunk => ?_
    cases chunk with
    | none => exact ih hrest' hfound
    | some c =>
      refine ih hrest' fun p hp => ?_
      rcases List.mem_cons.mp hp with rfl | hp
      · exact ⟨hk, hchunk⟩
      · exact hfound p hp

theorem tickFound_asks {speed : UInt32} {found : List (Key × C)} (h : ∀ p ∈ found, P (.tickChunk p.2 speed)) :
    (tickFound speed found).Asks w P fun _ => True := by
  induction found with
  | nil => exact trivial
  | cons p rest ih =>
    refine Asks.bind (.call (h p (List.mem_cons_self ..))) fun _ _ => Asks.bind (.note _) fun _ _ => ?_
    exact ih fun q hq => h q (List.mem_cons_of_mem _ hq)

theorem regionTask_asks {speed : UInt32} {keys : List Key} {entities : List E} (hlookup : ∀ k ∈ keys, P (.lookup k))
    (htick : ∀ p, Found w keys p → P (.tickChunk p.2 speed)) (hentity : ∀ e ∈ entities, ∀ c, w.AsksAbout e c → P c) :
    (regionTask speed keys entities).Asks w P fun _ => True := by
  refine Asks.bind (resolve_asks (fun k hk => hk) (fun _ => nofun) hlookup) fun found hfound => ?_
  exact Asks.bind (tickFound_asks fun p hp => htick p (hfound p hp)) fun _ _ => offerAll_asks hentity

end Program

/-! ## Runs from states that are alike -/

/-- Two runs that end the same way after the same events, in states that are alike. -/
structure SameRun (alike : σ → σ → Prop) (x y : Except Fault α × Trail σ C E) : Prop where
  result : x.1 = y.1
  recorded : x.2.recorded = y.2.recorded
  events : x.2.events = y.2.events
  state : alike x.2.state y.2.state

theorem SameRun.trans {alike : σ → σ → Prop} (h : ∀ {a b c}, alike a b → alike b c → alike a c)
    {x y z : Except Fault α × Trail σ C E} (hxy : SameRun alike x y) (hyz : SameRun alike y z) : SameRun alike x z :=
  ⟨hxy.result.trans hyz.result, hxy.recorded.trans hyz.recorded, hxy.events.trans hyz.events, h hxy.state hyz.state⟩

/-- If the calls that a program asks have the same answers in states that are alike, and keep these alike, the program
runs the same from such states. -/
theorem Program.sameRun {w w' : World σ C E} {P : Call C E → Prop} {Q : α → Prop} {alike : σ → σ → Prop}
    (hcall : ∀ c, P c → ∀ s s', alike s s' →
      (w.answer c s).1 = (w'.answer c s').1 ∧ alike (w.answer c s).2 (w'.answer c s').2)
    (o : Origin) {p : Program C E α} (hp : p.Asks w P Q) {s s' : σ} (h : alike s s') (keys : KeySet)
    (events : Array (Event C E)) : SameRun alike (p.run w o ⟨s, keys, events⟩) (p.run w' o ⟨s', keys, events⟩) := by
  induction p generalizing s s' keys events with
  | done a => exact ⟨rfl, rfl, rfl, h⟩
  | mark m rest ih => exact ih hp h _ _
  | ask c next ih =>
    obtain ⟨hsame, halike⟩ := hcall c hp.1 s s' h
    have hnext := hp.2 s
    rcases hans : w.answer c s with ⟨answer, t⟩
    rcases hans' : w'.answer c s' with ⟨answer', t'⟩
    rw [hans] at hsame halike hnext
    rw [hans'] at hsame halike
    obtain rfl : answer = answer' := hsame
    cases answer with
    | ok a => simpa only [run, hans, hans'] using ih a (hnext a rfl) halike keys (events.push (.called o c (.ok a)))
    | error fault =>
      simp only [run, hans, hans']
      exact ⟨rfl, rfl, rfl, halike⟩

end GridTick
