import GridTick.Scripted.World
import GridTick.Tick.History

/-!
# GridTick.Proofs.Tick.EntityContract — the contract of one entity, from its first question to its tick

Whether an entity takes part is asked before it may despawn, and what becomes of it is asked afterwards, of whatever
state the check leaves: the check may remove, freeze, move or unseat anybody, or raise a fault.

* `World.ReadsOnly`: questions are answered and change nothing; `World.Says`: their answers.
* `World.Carried`, `World.Forsaken`: how an entity rides.
* `World.carryOut`: calls on an entity one after another, up to a fault.
* `Program.Comes`, `comes_read`, `comes_script`: what a program comes to, question by question and call by call.
* `AfterCheck`: what becomes of an entity after a check that returned.
* `ContractKept`, `contract_kept`: the result, the state and the calls of a contract.
-/

namespace GridTick

variable {σ C E α : Type}

/-! ## Questions and calls -/

/-- A call that asks something about an entity. -/
def Call.Reads : Call C E → Prop
  | .isRemoved _ => True
  | .isFrozen _ => True
  | .vehicle _ => True
  | .hasPassenger _ _ => True
  | .lookup _ => False
  | .tickChunk _ _ => False
  | .stopRiding _ => False
  | .checkDespawn _ => False
  | .tickEntity _ => False

/-- The call that an entity takes note of. -/
def EntityCall.call (e : E) : EntityCall → Call C E
  | .despawnCheck => .checkDespawn e
  | .dismount => .stopRiding e
  | .tick => .tickEntity e

namespace World

variable (w : World σ C E)

/-- A question is answered so, and the state stays as it is. -/
def Says (c : Call C E) (s : σ) (a : c.Answer) : Prop := w.answer c s = (.ok a, s)

/-- What contracts ask is answered and changes nothing.  Nothing is said of the other calls. -/
def ReadsOnly : Prop := ∀ c : Call C E, c.Reads → ∀ s, ∃ a, w.Says c s a

/-- The entity is neither removed nor frozen. -/
def TakesPart (e : E) (s : σ) : Prop := w.Says (.isRemoved e) s false ∧ w.Says (.isFrozen e) s false

/-- The entity rides a vehicle that is there and lists it. -/
def Carried (e : E) (s : σ) : Prop :=
  ∃ v, w.Says (.vehicle e) s (some v) ∧ w.Says (.isRemoved v) s false ∧ w.Says (.hasPassenger v e) s true

/-- The entity rides a vehicle that is removed or does not list it. -/
def Forsaken (e : E) (s : σ) : Prop :=
  ∃ v, w.Says (.vehicle e) s (some v) ∧ (w.Says (.isRemoved v) s true ∨ w.Says (.hasPassenger v e) s false)

/-- Calls on an entity one after another, up to the first fault: how they end, in which state, and which were made. -/
def carryOut (e : E) : List EntityCall → σ → Except Fault Unit × σ × List EntityCall
  | [], s => (.ok (), s, [])
  | a :: rest, s =>
    match w.answer (a.call e) s with
    | (.ok _, s') => ((carryOut e rest s').1, (carryOut e rest s').2.1, a :: (carryOut e rest s').2.2)
    | (.error fault, s') => (.error fault, s', [a])

variable {w} {e : E} {s : σ}

theorem Says.unique {c : Call C E} {a b : c.Answer} (ha : w.Says c s a) (hb : w.Says c s b) : a = b :=
  Except.ok.inj (congrArg Prod.fst (ha.symm.trans hb))

theorem Carried.not_forsaken (h : w.Carried e s) : ¬ w.Forsaken e s := by
  obtain ⟨v, hv, hthere, hlisted⟩ := h
  rintro ⟨v', hv', hgone⟩
  obtain rfl : v = v' := Option.some.inj (hv.unique hv')
  rcases hgone with hremoved | hunlisted
  · exact Bool.false_ne_true (hthere.unique hremoved)
  · exact Bool.false_ne_true (hunlisted.unique hlisted)

theorem Carried.not_afoot (h : w.Carried e s) : ¬ w.Says (.vehicle e) s none := by
  obtain ⟨v, hv, -⟩ := h
  intro hnone
  cases hv.unique hnone

theorem Forsaken.not_afoot (h : w.Forsaken e s) : ¬ w.Says (.vehicle e) s none := by
  obtain ⟨v, hv, -⟩ := h
  intro hnone
  cases hv.unique hnone

/-- An entity is carried, forsaken, or rides nothing. -/
theorem ReadsOnly.rides (hw : w.ReadsOnly) (e : E) (s : σ) :
    w.Carried e s ∨ w.Forsaken e s ∨ w.Says (.vehicle e) s none := by
  obtain ⟨ridden, hridden⟩ := hw (.vehicle e) trivial s
  cases ridden with
  | none => exact .inr (.inr hridden)
  | some v =>
    obtain ⟨gone, hgone⟩ := hw (.isRemoved v) trivial s
    obtain ⟨listed, hlisted⟩ := hw (.hasPassenger v e) trivial s
    cases gone with
    | true => exact .inr (.inl ⟨v, hridden, .inl hgone⟩)
    | false =>
      cases listed with
      | false => exact .inr (.inl ⟨v, hridden, .inr hlisted⟩)
      | true => exact .inl ⟨v, hridden, hgone, hlisted⟩

/-- The calls up to a fault are the first ones. -/
theorem carryOut_isPrefix {acts : List EntityCall} : (w.carryOut e acts s).2.2 <+: acts := by
  induction acts generalizing s with
  | nil => exact List.prefix_refl _
  | cons a rest ih =>
    rw [carryOut]
    rcases w.answer (a.call e) s with ⟨_ | _, s'⟩
    · exact (List.prefix_cons_inj a).mpr List.nil_prefix
    · exact (List.prefix_cons_inj a).mpr ih

/-- Calls that all return are all made. -/
theorem carryOut_made {acts : List EntityCall} (h : (w.carryOut e acts s).1 = .ok ()) :
    (w.carryOut e acts s).2.2 = acts := by
  induction acts generalizing s with
  | nil => rfl
  | cons a rest ih =>
    rw [carryOut] at h ⊢
    rcases hans : w.answer (a.call e) s with ⟨_ | _, s'⟩
    · rw [hans] at h
      cases h
    · simp only [hans] at h ⊢
      rw [ih h]

end World

/-! ## What a program comes to -/

namespace Program

/-- Run from `s`, the program ends so, in such a state, having made such calls on `e`. -/
def Comes (w : World σ C E) (o : Origin) (e : E) (p : Program C E α) (s : σ)
    (out : Except Fault α × σ × List EntityCall) : Prop :=
  ∀ keys events, (p.run w o ⟨s, keys, events⟩).1 = out.1 ∧ (p.run w o ⟨s, keys, events⟩).2.state = out.2.1 ∧
    entityCalls (p.run w o ⟨s, keys, events⟩).2.events = entityCalls events ++ out.2.2.map fun a => (o.lane, a, e)

/-- Calls on an entity in order, and a result if they return. -/
def script (e : E) (result : EntityTick) : List EntityCall → Program C E EntityTick
  | [] => .done result
  | a :: rest => (call (a.call e)).bind fun _ => script e result rest

variable {w : World σ C E} {o : Origin} {e : E} {s s' : σ}

theorem entityCalls_push (events : Array (Event C E)) (ev : Event C E) :
    entityCalls (events.push ev) = entityCalls events ++ ev.entityCall?.toList := by
  unfold entityCalls
  rw [Array.toList_push, List.filterMap_append]
  cases h : ev.entityCall? with
  | none => simp [h]
  | some x => simp [h]

theorem entityCall?_of_reads {c : Call C E} (hc : c.Reads) (a : Except Fault c.Answer) :
    (Event.called o c a).entityCall? = none := by
  cases c with
  | isRemoved | isFrozen | vehicle | hasPassenger => rfl
  | lookup | tickChunk | stopRiding | checkDespawn | tickEntity => exact hc.elim

theorem entityCall?_call (a : EntityCall) (answer : Except Fault (a.call (C := C) e).Answer) :
    (Event.called o (a.call e) answer).entityCall? = some (o.lane, a, e) := by
  cases a <;> rfl

theorem comes_done (a : α) : Comes w o e (.done a) s (.ok a, s, []) := by
  intro keys events
  exact ⟨rfl, rfl, (List.append_nil _).symm⟩

/-- A question goes on with its answer. -/
theorem comes_read {c : Call C E} {a : c.Answer} {f : c.Answer → Program C E α}
    {out : Except Fault α × σ × List EntityCall} (hc : c.Reads) (ha : w.Says c s a) (hf : Comes w o e (f a) s out) :
    Comes w o e ((call c).bind f) s out := by
  intro keys events
  have hrun : ((call c).bind f).run w o ⟨s, keys, events⟩ =
      (f a).run w o ⟨s, keys, events.push (.called o c (.ok a))⟩ := by
    unfold World.Says at ha
    simp only [call, ask_bind, done_bind, run, ha]
  rw [hrun]
  obtain ⟨hresult, hstate, hcalls⟩ := hf keys (events.push (.called o c (.ok a)))
  refine ⟨hresult, hstate, ?_⟩
  rw [hcalls, entityCalls_push, entityCall?_of_reads hc, Option.toList_none, List.append_nil]

/-- A call on the entity that raises a fault is the last one. -/
theorem comes_fault {a : EntityCall} {f : (a.call e).Answer → Program C E α} {fault : Fault}
    (ha : w.answer (a.call e) s = (.error fault, s')) :
    Comes w o e ((call (a.call e)).bind f) s (.error fault, s', [a]) := by
  intro keys events
  have hrun : ((call (a.call e)).bind f).run w o ⟨s, keys, events⟩ =
      (.error fault, ⟨s', keys, events.push (.called o (a.call e) (.error fault))⟩) := by
    simp only [call, ask_bind, run, ha]
  rw [hrun]
  refine ⟨rfl, rfl, ?_⟩
  rw [entityCalls_push, entityCall?_call]
  rfl

theorem comes_call {a : EntityCall} {f : (a.call e).Answer → Program C E α} {x : (a.call e).Answer}
    {r : Except Fault α} {s'' : σ} {made : List EntityCall} (ha : w.answer (a.call e) s = (.ok x, s'))
    (hf : Comes w o e (f x) s' (r, s'', made)) :
    Comes w o e ((call (a.call e)).bind f) s (r, s'', a :: made) := by
  intro keys events
  have hrun : ((call (a.call e)).bind f).run w o ⟨s, keys, events⟩ =
      (f x).run w o ⟨s', keys, events.push (.called o (a.call e) (.ok x))⟩ := by
    simp only [call, ask_bind, done_bind, run, ha]
  rw [hrun]
  obtain ⟨hresult, hstate, hcalls⟩ := hf keys (events.push (.called o (a.call e) (.ok x)))
  refine ⟨hresult, hstate, ?_⟩
  rw [hcalls, entityCalls_push, entityCall?_call, List.append_assoc]
  rfl

/-- A script comes to its calls carried out. -/
theorem comes_script (result : EntityTick) (acts : List EntityCall) :
    Comes w o e (script e result acts) s
      ((w.carryOut e acts s).1.map fun _ => result, (w.carryOut e acts s).2) := by
  induction acts generalizing s with
  | nil => exact comes_done result
  | cons a rest ih =>
    rw [World.carryOut]
    rcases hans : w.answer (a.call e) s with ⟨fault | x, s'⟩
    · exact comes_fault hans
    · exact comes_call hans ih

/-- What an entity comes to after its check: some calls on it, and a result if they return. -/
def concluded (w : World σ C E) (e : E) (acts : List EntityCall) (result : EntityTick) (s : σ) :
    Except Fault EntityTick × σ × List EntityCall :=
  ((w.carryOut e acts s).1.map fun _ => result, (w.carryOut e acts s).2.1,
    .despawnCheck :: (w.carryOut e acts s).2.2)

/-! ## The contract -/

theorem contract_removed (h : w.Says (.isRemoved e) s true) : Comes w o e (contract e) s (.ok .removed, s, []) := by
  unfold contract
  exact comes_read trivial h (comes_done _)

/-- An entity that is there goes on to the next question. -/
theorem contract_present {out : Except Fault EntityTick × σ × List EntityCall} (h : w.Says (.isRemoved e) s false)
    (hrest : Comes w o e ((call (.isFrozen e)).bind fun frozen => if frozen then pure .frozen else takePart e) s out) :
    Comes w o e (contract e) s out := by
  unfold contract
  exact comes_read trivial h hrest

theorem contract_frozen (h : w.Says (.isRemoved e) s false) (hfrozen : w.Says (.isFrozen e) s true) :
    Comes w o e (contract e) s (.ok .frozen, s, []) :=
  contract_present h (comes_read trivial hfrozen (comes_done _))

theorem contract_takesPart {out : Except Fault EntityTick × σ × List EntityCall} (h : w.TakesPart e s)
    (hpart : Comes w o e (takePart e) s out) : Comes w o e (contract e) s out :=
  contract_present h.1 (comes_read trivial h.2 hpart)

/-- A check that raises a fault is the last call on the entity. -/
theorem takePart_raised {fault : Fault} (h : w.answer (.checkDespawn e) s = (.error fault, s')) :
    Comes w o e (takePart e) s (.error fault, s', [.despawnCheck]) := by
  unfold takePart
  exact comes_fault (a := .despawnCheck) h

/-- A check that returns is followed by the question what the entity rides. -/
theorem takePart_checked {v : Option E} {acts : List EntityCall} {result : EntityTick}
    (h : w.answer (.checkDespawn e) s = (.ok (), s')) (hv : w.Says (.vehicle e) s' v)
    (hrest : Comes w o e
      (match v with
        | none => script e (.ticked false) [.tick]
        | some v => (stillCarries v e).bind fun carried =>
          if carried then script e .passenger [] else script e (.ticked true) [.dismount, .tick])
      s' ((w.carryOut e acts s').1.map fun _ => result, (w.carryOut e acts s').2)) :
    Comes w o e (takePart e) s (concluded w e acts result s') := by
  unfold takePart
  refine comes_call (a := .despawnCheck) h (comes_read trivial hv ?_)
  cases v with
  | none => exact hrest
  | some v => exact hrest

theorem takePart_afoot (h : w.answer (.checkDespawn e) s = (.ok (), s')) (hv : w.Says (.vehicle e) s' none) :
    Comes w o e (takePart e) s (concluded w e [.tick] (.ticked false) s') :=
  takePart_checked h hv (comes_script _ _)

theorem takePart_carried (h : w.answer (.checkDespawn e) s = (.ok (), s')) (hcarried : w.Carried e s') :
    Comes w o e (takePart e) s (concluded w e [] .passenger s') := by
  obtain ⟨v, hv, hthere, hlisted⟩ := hcarried
  refine takePart_checked h hv ?_
  show Comes w o e ((stillCarries v e).bind _) s' _
  unfold stillCarries
  exact comes_read trivial hthere (comes_read trivial hlisted (comes_script _ _))

theorem takePart_forsaken (h : w.answer (.checkDespawn e) s = (.ok (), s')) (hw : w.ReadsOnly)
    (hforsaken : w.Forsaken e s') :
    Comes w o e (takePart e) s (concluded w e [.dismount, .tick] (.ticked true) s') := by
  obtain ⟨v, hv, hgone⟩ := hforsaken
  refine takePart_checked h hv ?_
  show Comes w o e ((stillCarries v e).bind _) s' _
  unfold stillCarries
  obtain ⟨gone, hremoved⟩ := hw (.isRemoved v) trivial s'
  refine comes_read trivial hremoved ?_
  cases gone with
  | true => exact comes_script _ _
  | false =>
    -- the vehicle is there, so it does not list the entity
    have hunlisted : w.Says (.hasPassenger v e) s' false :=
      hgone.resolve_left fun htrue => Bool.false_ne_true (hremoved.unique htrue)
    exact comes_read trivial hunlisted (comes_script _ _)

end Program

/-- What becomes of an entity once its check has returned and left the state `s`. -/
structure AfterCheck (w : World σ C E) (e : E) (s : σ) (out : Except Fault EntityTick × σ × List EntityCall) :
    Prop where
  passenger : out.1 = .ok .passenger ↔ w.Carried e s
  /-- A passenger sees no further effect. -/
  left : w.Carried e s → out.2 = (s, [.despawnCheck])
  dismounted : out.1 = .ok (.ticked true) ↔ w.Forsaken e s ∧ (w.carryOut e [.dismount, .tick] s).1 = .ok ()
  forsaken : w.Forsaken e s → out = Program.concluded w e [.dismount, .tick] (.ticked true) s
  standing : out.1 = .ok (.ticked false) ↔ w.Says (.vehicle e) s none ∧ (w.carryOut e [.tick] s).1 = .ok ()
  afoot : w.Says (.vehicle e) s none → out = Program.concluded w e [.tick] (.ticked false) s
  /-- The calls before a tick that came to its end. -/
  made : ∀ dismounted, out.1 = .ok (.ticked dismounted) →
    out.2.2 = .despawnCheck :: if dismounted then [.dismount, .tick] else [.tick]

/-- What the contract of an entity comes to from `s`: a result or a fault, a state, and the calls on the entity. -/
structure ContractKept (w : World σ C E) (e : E) (s : σ) (out : Except Fault EntityTick × σ × List EntityCall) :
    Prop where
  removed : out.1 = .ok .removed ↔ w.Says (.isRemoved e) s true
  frozen : out.1 = .ok .frozen ↔ w.Says (.isRemoved e) s false ∧ w.Says (.isFrozen e) s true
  untouched : ¬ w.TakesPart e s → out.2 = (s, [])
  checkedOnce : w.TakesPart e s → out.2.2.count .despawnCheck = 1
  raised : w.TakesPart e s → ∀ fault s', w.answer (.checkDespawn e) s = (.error fault, s') →
    out = (.error fault, s', [.despawnCheck])
  returned : w.TakesPart e s → ∀ s', w.answer (.checkDespawn e) s = (.ok (), s') → AfterCheck w e s' out

section

variable {w : World σ C E} {e : E} {s s' : σ} {acts : List EntityCall} {result : EntityTick}

theorem concluded_result {r : EntityTick} :
    (Program.concluded w e acts result s).1 = .ok r ↔ result = r ∧ (w.carryOut e acts s).1 = .ok () := by
  unfold Program.concluded
  cases (w.carryOut e acts s).1 with
  | error fault => simp [Except.map]
  | ok _ => simp [Except.map]

theorem concluded_made {r : EntityTick} (h : (Program.concluded w e acts result s).1 = .ok r) :
    (Program.concluded w e acts result s).2.2 = .despawnCheck :: acts :=
  congrArg _ (World.carryOut_made (concluded_result.mp h).2)

/-- What follows a check is no check. -/
theorem concluded_checkedOnce (h : .despawnCheck ∉ acts) :
    (Program.concluded w e acts result s).2.2.count .despawnCheck = 1 := by
  show (EntityCall.despawnCheck :: (w.carryOut e acts s).2.2).count .despawnCheck = 1
  rw [List.count_cons_self, List.count_eq_zero_of_not_mem fun hmem => h (World.carryOut_isPrefix.subset hmem)]

theorem AfterCheck.of_carried (h : w.Carried e s) : AfterCheck w e s (Program.concluded w e [] .passenger s) where
  passenger := concluded_result.trans ⟨fun _ => h, fun _ => ⟨rfl, rfl⟩⟩
  left _ := rfl
  dismounted := by simp [concluded_result, h.not_forsaken]
  forsaken hforsaken := (h.not_forsaken hforsaken).elim
  standing := by simp [concluded_result, h.not_afoot]
  afoot hnone := (h.not_afoot hnone).elim
  made := by simp [concluded_result]

theorem AfterCheck.of_forsaken (h : w.Forsaken e s) :
    AfterCheck w e s (Program.concluded w e [.dismount, .tick] (.ticked true) s) where
  passenger := by
    have hnot : ¬ w.Carried e s := fun hcarried => hcarried.not_forsaken h
    simp [concluded_result, hnot]
  left hcarried := (hcarried.not_forsaken h).elim
  dismounted := by simp [concluded_result, h]
  forsaken _ := rfl
  standing := by simp [concluded_result, h.not_afoot]
  afoot hnone := (h.not_afoot hnone).elim
  made := by
    intro dismounted hticked
    cases (concluded_result.mp hticked).1
    exact concluded_made hticked

theorem AfterCheck.of_afoot (h : w.Says (.vehicle e) s none) :
    AfterCheck w e s (Program.concluded w e [.tick] (.ticked false) s) where
  passenger := by
    have hnot : ¬ w.Carried e s := fun hcarried => hcarried.not_afoot h
    simp [concluded_result, hnot]
  left hcarried := (hcarried.not_afoot h).elim
  dismounted := by
    have hnot : ¬ w.Forsaken e s := fun hforsaken => hforsaken.not_afoot h
    simp [concluded_result, hnot]
  forsaken hforsaken := (hforsaken.not_afoot h).elim
  standing := by simp [concluded_result, h]
  afoot _ := rfl
  made := by
    intro dismounted hticked
    cases (concluded_result.mp hticked).1
    exact concluded_made hticked

/-- A contract that passes its entity over: neither a call on it nor a change. -/
theorem ContractKept.of_passedOver {r : EntityTick} (hpart : ¬ w.TakesPart e s)
    (hremoved : r = .removed ↔ w.Says (.isRemoved e) s true)
    (hfrozen : r = .frozen ↔ w.Says (.isRemoved e) s false ∧ w.Says (.isFrozen e) s true) :
    ContractKept w e s (.ok r, s, []) where
  removed := by simpa using hremoved
  frozen := by simpa using hfrozen
  untouched _ := rfl
  checkedOnce h := (hpart h).elim
  raised h := (hpart h).elim
  returned h := (hpart h).elim

/-- A contract that lets its entity take part. -/
theorem ContractKept.of_takesPart {out : Except Fault EntityTick × σ × List EntityCall} (hpart : w.TakesPart e s)
    (hremoved : out.1 ≠ .ok .removed) (hfrozen : out.1 ≠ .ok .frozen) (honce : out.2.2.count .despawnCheck = 1)
    (hraised : ∀ fault s', w.answer (.checkDespawn e) s = (.error fault, s') → out = (.error fault, s', [.despawnCheck]))
    (hreturned : ∀ s', w.answer (.checkDespawn e) s = (.ok (), s') → AfterCheck w e s' out) :
    ContractKept w e s out where
  removed := ⟨fun h => (hremoved h).elim, fun h => (Bool.false_ne_true (hpart.1.unique h)).elim⟩
  frozen := ⟨fun h => (hfrozen h).elim, fun h => (Bool.false_ne_true (hpart.2.unique h.2)).elim⟩
  untouched h := (h hpart).elim
  checkedOnce _ := honce
  raised _ := hraised
  returned _ := hreturned

theorem ContractKept.of_raised {fault : Fault} (hpart : w.TakesPart e s)
    (h : w.answer (.checkDespawn e) s = (.error fault, s')) :
    ContractKept w e s (.error fault, s', [.despawnCheck]) := by
  refine .of_takesPart hpart (by simp) (by simp) rfl (fun fault₁ s₁ h₁ => ?_) fun s₁ h₁ => ?_
  · obtain ⟨hfault, rfl⟩ := Prod.mk.inj (h.symm.trans h₁)
    rw [Except.error.inj hfault]
  · cases h.symm.trans h₁

theorem ContractKept.of_returned (hpart : w.TakesPart e s) (h : w.answer (.checkDespawn e) s = (.ok (), s'))
    (hacts : .despawnCheck ∉ acts) (hremoved : result ≠ .removed) (hfrozen : result ≠ .frozen)
    (hafter : AfterCheck w e s' (Program.concluded w e acts result s')) :
    ContractKept w e s (Program.concluded w e acts result s') := by
  refine .of_takesPart hpart (fun heq => hremoved (concluded_result.mp heq).1)
    (fun heq => hfrozen (concluded_result.mp heq).1) (concluded_checkedOnce hacts)
    (fun fault s₁ h₁ => ?_) fun s₁ h₁ => ?_
  · cases h.symm.trans h₁
  · obtain ⟨-, rfl⟩ := Prod.mk.inj (h.symm.trans h₁)
    exact hafter

end

/-- The contract of an entity, from any state, whatever its check does to anybody: what it comes to is as
`ContractKept` says. -/
theorem contract_kept (w : World σ C E) (hw : w.ReadsOnly) (o : Origin) (e : E) (s : σ) :
    ∃ out, Program.Comes w o e (Program.contract e) s out ∧ ContractKept w e s out := by
  obtain ⟨gone, hgone⟩ := hw (.isRemoved e) trivial s
  obtain ⟨frozen, hfrozen⟩ := hw (.isFrozen e) trivial s
  cases gone with
  | true =>
    have hnot : ¬ w.Says (.isRemoved e) s false := fun h => Bool.false_ne_true (h.unique hgone)
    exact ⟨_, Program.contract_removed hgone,
      .of_passedOver (fun h => hnot h.1) (by simp [hgone]) (by simp [hnot])⟩
  | false =>
    have hnot : ¬ w.Says (.isRemoved e) s true := fun h => Bool.false_ne_true (hgone.unique h)
    cases frozen with
    | true =>
      have hpart : ¬ w.TakesPart e s := fun h => Bool.false_ne_true (h.2.unique hfrozen)
      exact ⟨_, Program.contract_frozen hgone hfrozen,
        .of_passedOver hpart (by simp [hnot]) (by simp [hgone, hfrozen])⟩
    | false =>
      have hpart : w.TakesPart e s := ⟨hgone, hfrozen⟩
      rcases hcheck : w.answer (.checkDespawn e) s with ⟨fault | _, s₁⟩
      · exact ⟨_, Program.contract_takesPart hpart (Program.takePart_raised hcheck), .of_raised hpart hcheck⟩
      · rcases hw.rides e s₁ with hcarried | hforsaken | hafoot
        · exact ⟨_, Program.contract_takesPart hpart (Program.takePart_carried hcheck hcarried),
            .of_returned hpart hcheck (by simp) (by simp) (by simp) (.of_carried hcarried)⟩
        · exact ⟨_, Program.contract_takesPart hpart (Program.takePart_forsaken hcheck hw hforsaken),
            .of_returned hpart hcheck (by simp) (by simp) (by simp) (.of_forsaken hforsaken)⟩
        · exact ⟨_, Program.contract_takesPart hpart (Program.takePart_afoot hcheck hafoot),
            .of_returned hpart hcheck (by simp) (by simp) (by simp) (.of_afoot hafoot)⟩

/-! ## A world with traps -/

theorem Scripted.world_readsOnly : Scripted.world.ReadsOnly := by
  intro c hc s
  cases c with
  | isRemoved | isFrozen | vehicle | hasPassenger => exact ⟨_, rfl⟩
  | lookup | tickChunk | stopRiding | checkDespawn | tickEntity => exact hc.elim

/-- A mob that rides another, whose check removes the other. -/
def Scripted.State.unhorsing : State :=
  let mob : Mob := ⟨.origin, false, false, none, [], [], [], some 0⟩
  let rider : Mob := { mob with vehicle := some 2, onDespawn := [⟨some 2, .remove⟩] }
  .ofPopulation ⟨.ofList [(1, rider), (2, { mob with passengers := [1] })], .empty⟩ []

/-- Before its check the vehicle carries the rider; it is taken off and ticked all the same. -/
theorem contract_kept_unhorsing :
    Scripted.world.ReadsOnly ∧ Scripted.world.Carried 1 .unhorsing ∧
      (∃ out, Program.Comes Scripted.world .caller 1 (Program.contract 1) .unhorsing out ∧
        ContractKept Scripted.world 1 .unhorsing out ∧
        out.1 = .ok (.ticked true) ∧ out.2.2 = [.despawnCheck, .dismount, .tick]) := by
  obtain ⟨out, hcomes, hkept⟩ := contract_kept Scripted.world Scripted.world_readsOnly .caller 1 .unhorsing
  have hresult : out.1 = .ok (.ticked true) := by
    rw [← (hcomes ∅ #[]).1]
    rfl
  have hpart : Scripted.world.TakesPart 1 .unhorsing := ⟨Prod.ext rfl rfl, Prod.ext rfl rfl⟩
  have hcheck : Scripted.world.answer (.checkDespawn 1) .unhorsing =
      (.ok (), (Scripted.world.answer (.checkDespawn 1) .unhorsing).2) := Prod.ext rfl rfl
  have hcarried : Scripted.world.Carried 1 .unhorsing := ⟨2, Prod.ext rfl rfl, Prod.ext rfl rfl, Prod.ext rfl rfl⟩
  exact ⟨Scripted.world_readsOnly, hcarried, out, hcomes, hkept, hresult,
    (hkept.returned hpart _ hcheck).made true hresult⟩

end GridTick
