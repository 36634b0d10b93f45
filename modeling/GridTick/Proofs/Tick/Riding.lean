import Mathlib.Logic.Function.Basic
import GridTick.Proofs.Tick.Histories

/-!
# GridTick.Proofs.Tick.Riding — who rides whom, and what the contract makes of it

The contract of an entity reads whether it is removed or frozen, what it rides, and whether its vehicle is there and
lists it; and it may take the entity off its vehicle.  Taking one entity off changes nothing that the contract of
another reads, whatever the two have to do with each other.

* `Riding`: what contracts read; `Riding.verdict`: what an entity is offered; `Riding.dismount`: taking it off.
* `Riding.dismount_comm`, `Riding.sameFor_foldl_dismount`: others being taken off, in any order.
* `Call.Told`, `Event.Told`: answers that a riding gives.
* `offerAll_told`, `regionTask_told`, `sweep_told`: what programs settle when they are told by one riding throughout.
-/

namespace GridTick

variable {σ C E α : Type}

/-- What contracts read: who is removed or frozen, what an entity rides, and whom it lists as its passengers.  Any such
functions will do: a rider may be listed nowhere, vehicles may be removed or shared, and riding may go round in circles. -/
@[ext]
structure Riding (E : Type) where
  removed : E → Bool
  frozen : E → Bool
  vehicle : E → Option E
  passengers : E → List E

namespace Riding

variable [DecidableEq E] (p : Riding E)

/-- A vehicle carries an entity if it is there and lists it. -/
def carries (v e : E) : Bool := !p.removed v && (p.passengers v).contains e

/-- What becomes of an entity that is offered its tick. -/
def verdict (e : E) : EntityTick :=
  if p.removed e then .removed
  else if p.frozen e then .frozen
  else
    match p.vehicle e with
    | none => .ticked false
    | some v => if p.carries v e then .passenger else .ticked true

/-- Clear the vehicle of an entity, and its entries in the passenger list of that vehicle. -/
def dismount (e : E) : Riding E :=
  { p with
    vehicle := Function.update p.vehicle e none
    passengers :=
      match p.vehicle e with
      | none => p.passengers
      | some v => Function.update p.passengers v ((p.passengers v).filter (· ≠ e)) }

variable {p} {a e v : E}

/-! ## One entity taken off -/

theorem vehicle_dismount (h : e ≠ a) : (p.dismount a).vehicle e = p.vehicle e := Function.update_of_ne h _ _

theorem passengers_dismount : (p.dismount a).passengers v =
    if p.vehicle a = some v then (p.passengers v).filter (· ≠ a) else p.passengers v := by
  unfold dismount
  cases ha : p.vehicle a with
  | none => simp
  | some u =>
    by_cases hv : v = u
    · subst hv
      simp
    · have hne : ¬ some u = some v := fun h => hv (Option.some.inj h).symm
      rw [if_neg hne]
      exact Function.update_of_ne hv _ _

/-- No list loses another entity. -/
theorem lists_dismount (h : e ≠ a) : ((p.dismount a).passengers v).contains e = (p.passengers v).contains e := by
  rw [passengers_dismount]
  by_cases hv : p.vehicle a = some v
  · rw [if_pos hv, Bool.eq_iff_iff, List.contains_iff_mem, List.contains_iff_mem, List.mem_filter]
    simp [h]
  · rw [if_neg hv]

/-- It makes no difference which of two entities is taken off first. -/
theorem dismount_comm (p : Riding E) (a e : E) : (p.dismount a).dismount e = (p.dismount e).dismount a := by
  by_cases hne : e = a
  · rw [hne]
  · refine Riding.ext rfl rfl ?_ ?_
    · exact Function.update_comm (Ne.symm hne) none none p.vehicle
    · funext v
      simp only [passengers_dismount, vehicle_dismount hne, vehicle_dismount (Ne.symm hne)]
      -- a list loses both only if both ride its entity, and then in either order
      by_cases ha : p.vehicle a = some v
      · by_cases he : p.vehicle e = some v
        · simp only [ha, he, if_true]
          exact List.filter_comm _ _ _
        · simp only [ha, he, if_true, if_false]
      · simp only [ha, if_false]

/-! ## Many entities taken off -/

/-- `e` rides the same in both, and is listed by the same. -/
structure SameFor (e : E) (q p : Riding E) : Prop where
  vehicle : q.vehicle e = p.vehicle e
  lists : ∀ v, (q.passengers v).contains e = (p.passengers v).contains e

theorem sameFor_foldl_dismount {others : List E} (h : e ∉ others) : SameFor e (others.foldl dismount p) p := by
  induction others generalizing p with
  | nil => exact ⟨rfl, fun _ => rfl⟩
  | cons a rest ih =>
    obtain ⟨hne, hrest⟩ := not_or.mp (List.mem_cons.not.mp h)
    obtain ⟨hvehicle, hlists⟩ := ih (p := p.dismount a) hrest
    exact ⟨hvehicle.trans (vehicle_dismount hne), fun v => (hlists v).trans (lists_dismount hne)⟩

/-- Who is removed or frozen does not change, whoever is taken off. -/
theorem foldl_dismount_fixed (p : Riding E) (others : List E) :
    (others.foldl dismount p).removed = p.removed ∧ (others.foldl dismount p).frozen = p.frozen := by
  induction others generalizing p with
  | nil => exact ⟨rfl, rfl⟩
  | cons a rest ih => exact ih (p.dismount a)

theorem foldl_dismount_perm {l l' : List E} (h : l.Perm l') (p : Riding E) : l.foldl dismount p = l'.foldl dismount p :=
  h.foldl_eq' (fun a _ b _ q => dismount_comm q a b) p

end Riding

/-! ## Answers that a riding gives -/

/-- The rider whose links a call reads or clears. -/
def Call.rider? : Call C E → Option E
  | .vehicle e => some e
  | .hasPassenger _ e => some e
  | .stopRiding e => some e
  | _ => none

/-- Whom a call takes off a vehicle. -/
def Call.dismounted? : Call C E → Option E
  | .stopRiding e => some e
  | _ => none

theorem Call.rider?_of_dismounted? {c : Call C E} {e : E} (h : c.dismounted? = some e) : c.rider? = some e := by
  cases c with
  | stopRiding e' => exact h
  | _ => cases h

/-- Whom an event takes off a vehicle. -/
def Event.dismounted? : Event C E → Option E
  | .called _ c (.ok _) => c.dismounted?
  | _ => none

/-- What an entity is settled with. -/
def Event.settled? : Event C E → Option (E × EntityTick)
  | .marked _ (.settled e result) => some (e, result)
  | _ => none

def dismounts (events : List (Event C E)) : List E := events.filterMap Event.dismounted?

def settlements (events : List (Event C E)) : List (E × EntityTick) := events.filterMap Event.settled?

theorem dismounts_append (H₁ H₂ : List (Event C E)) : dismounts (H₁ ++ H₂) = dismounts H₁ ++ dismounts H₂ :=
  List.filterMap_append

theorem settlements_append (H₁ H₂ : List (Event C E)) : settlements (H₁ ++ H₂) = settlements H₁ ++ settlements H₂ :=
  List.filterMap_append

theorem settled?_of_nobody {ev : Event C E} (h : ev.origin? = none) : ev.settled? = none := by
  rcases ev with _ | _ | _ | _
  · rfl
  · cases h
  · rfl
  · rfl

theorem dismounted?_of_nobody {ev : Event C E} (h : ev.origin? = none) : ev.dismounted? = none := by
  rcases ev with _ | _ | _ | _
  · cases h
  · rfl
  · rfl
  · rfl

theorem dismounts_called (o : Origin) (c : Call C E) (a : c.Answer) (H : List (Event C E)) :
    dismounts (.called o c (.ok a) :: H) = c.dismounted?.toList ++ dismounts H := by
  have hevent : (Event.called o c (.ok a)).dismounted? = c.dismounted? := rfl
  cases hc : c.dismounted? with
  | none => exact List.filterMap_cons_none (hevent.trans hc)
  | some e => exact List.filterMap_cons_some (hevent.trans hc)

/-- What has nothing to do with offers settles nobody and takes nobody off. -/
theorem quiet_of_not_ofOffer {H : List (Event C E)} (h : ∀ ev ∈ H, ¬ ev.OfOffer) : settlements H = [] ∧ dismounts H = [] := by
  refine ⟨List.filterMap_eq_nil_iff.mpr fun ev hev => ?_, List.filterMap_eq_nil_iff.mpr fun ev hev => ?_⟩
  · rcases ev with _ | ⟨_, m⟩ | _ | _
    · rfl
    · cases m with
      | settled => exact absurd trivial (h _ hev)
      | _ => rfl
    · rfl
    · rfl
  · rcases ev with ⟨_, c, a⟩ | _ | _ | _
    · cases c with
      | lookup => cases a <;> rfl
      | tickChunk => cases a <;> rfl
      | _ => exact absurd trivial (h _ hev)
    · rfl
    · rfl
    · rfl

section Told

variable [DecidableEq E]

/-- An answer is what a riding says.  Look-ups and chunk ticks are none of its business. -/
def Call.Told (p : Riding E) : (c : Call C E) → c.Answer → Prop
  | .isRemoved e, gone => gone = p.removed e
  | .isFrozen e, frozen => frozen = p.frozen e
  | .vehicle e, ridden => ridden = p.vehicle e
  | .hasPassenger v e, listed => listed = (p.passengers v).contains e
  | .lookup _, _ => True
  | .tickChunk _ _, _ => True
  | .stopRiding _, _ => True
  | .checkDespawn _, _ => True
  | .tickEntity _, _ => True

/-- A call that returned, with an answer that the riding gives. -/
def Event.Told (p : Riding E) : Event C E → Prop
  | .called _ c (.ok a) => c.Told p a
  | .called _ _ (.error _) => False
  | .marked _ _ => True
  | .noticed _ => True
  | .joined => True

variable {p : Riding E} {o : Origin} {H : List (Event C E)}

namespace Program

theorem Ends.call_told {c : Call C E} {f : c.Answer → Program C E α} {r : Except Fault α}
    (h : Ends o ((Program.call c).bind f) H r) (htold : ∀ ev ∈ H, ev.Told p) :
    ∃ a H', H = .called o c (.ok a) :: H' ∧ c.Told p a ∧ Ends o (f a) H' r ∧ ∀ ev ∈ H', ev.Told p := by
  rcases h.call_inv with ⟨a, H', rfl, hnext⟩ | ⟨fault, rfl, rfl⟩
  · obtain ⟨ha, hrest⟩ := List.forall_mem_cons.mp htold
    exact ⟨a, H', rfl, ha, hnext, hrest⟩
  · exact (htold _ (List.mem_singleton_self _)).elim

/-- Told by a riding, a program settles these entities as the riding says, and takes off whom it says. -/
structure Settles (p : Riding E) (entities : List E) (H : List (Event C E)) (r : Except Fault Unit) : Prop where
  result : r = .ok ()
  settlements : settlements H = entities.map fun e => (e, p.verdict e)
  dismounts : dismounts H = entities.filter fun e => p.verdict e = .ticked true

theorem stillCarries_told {v e : E} {f : Bool → Program C E α} {r : Except Fault α}
    (h : Ends o ((stillCarries v e).bind f) H r) (htold : ∀ ev ∈ H, ev.Told p) :
    ∃ H', dismounts H = dismounts H' ∧ Ends o (f (p.carries v e)) H' r ∧ ∀ ev ∈ H', ev.Told p := by
  rw [stillCarries, bind_eq, bind_assoc] at h
  obtain ⟨gone, H₁, rfl, hgone, h₁, htold₁⟩ := h.call_told htold
  obtain rfl : gone = p.removed v := hgone
  cases hremoved : p.removed v with
  | true =>
    rw [hremoved] at h₁
    refine ⟨H₁, dismounts_called .., ?_, htold₁⟩
    rw [Riding.carries, hremoved]
    exact h₁
  | false =>
    rw [hremoved] at h₁
    obtain ⟨listed, H₂, rfl, hlisted, h₂, htold₂⟩ := h₁.call_told htold₁
    obtain rfl : listed = (p.passengers v).contains e := hlisted
    refine ⟨H₂, ?_, ?_, htold₂⟩
    · rw [dismounts_called, dismounts_called]
      rfl
    · rw [Riding.carries, hremoved]
      exact h₂

/-- Told by a riding, the contract settles an entity as the riding says, and takes it off if the riding says so. -/
theorem contract_told {e : E} {r : Except Fault EntityTick} (h : Ends o (contract e) H r) (htold : ∀ ev ∈ H, ev.Told p) :
    r = .ok (p.verdict e) ∧ dismounts H = if p.verdict e = .ticked true then [e] else [] := by
  rw [contract, bind_eq] at h
  obtain ⟨gone, H₁, rfl, hgone, h₁, htold₁⟩ := h.call_told htold
  obtain rfl : gone = p.removed e := hgone
  rw [dismounts_called]
  cases hremoved : p.removed e with
  | true =>
    rw [hremoved] at h₁
    obtain ⟨rfl, rfl⟩ := ends_done h₁
    have hverdict : p.verdict e = .removed := by simp [Riding.verdict, hremoved]
    rw [hverdict]
    exact ⟨rfl, rfl⟩
  | false =>
    rw [hremoved] at h₁
    obtain ⟨frozen, H₂, rfl, hfrozen, h₂, htold₂⟩ := Ends.call_told h₁ htold₁
    obtain rfl : frozen = p.frozen e := hfrozen
    rw [dismounts_called]
    cases hfrozen : p.frozen e with
    | true =>
      rw [hfrozen] at h₂
      obtain ⟨rfl, rfl⟩ := ends_done h₂
      have hverdict : p.verdict e = .frozen := by simp [Riding.verdict, hremoved, hfrozen]
      rw [hverdict]
      exact ⟨rfl, rfl⟩
    | false =>
      rw [hfrozen] at h₂
      obtain ⟨_, H₃, rfl, -, h₃, htold₃⟩ := Ends.call_told h₂ htold₂
      obtain ⟨ridden, H₄, rfl, hridden, h₄, htold₄⟩ := Ends.call_told h₃ htold₃
      obtain rfl : ridden = p.vehicle e := hridden
      rw [dismounts_called, dismounts_called]
      cases hvehicle : p.vehicle e with
      | none =>
        rw [hvehicle] at h₄
        obtain ⟨_, H₅, rfl, -, h₅, -⟩ := Ends.call_told h₄ htold₄
        obtain ⟨rfl, rfl⟩ := ends_done h₅
        have hverdict : p.verdict e = .ticked false := by simp [Riding.verdict, hremoved, hfrozen, hvehicle]
        rw [hverdict]
        exact ⟨rfl, rfl⟩
      | some v =>
        rw [hvehicle] at h₄
        obtain ⟨H₅, hoff, h₅, htold₅⟩ := stillCarries_told h₄ htold₄
        rw [hoff]
        cases hcarries : p.carries v e with
        | true =>
          rw [hcarries] at h₅
          obtain ⟨rfl, rfl⟩ := ends_done h₅
          have hverdict : p.verdict e = .passenger := by
            simp [Riding.verdict, hremoved, hfrozen, hvehicle, hcarries]
          rw [hverdict]
          exact ⟨rfl, rfl⟩
        | false =>
          rw [hcarries] at h₅
          obtain ⟨_, H₆, rfl, -, h₆, htold₆⟩ := Ends.call_told h₅ htold₅
          obtain ⟨_, H₇, rfl, -, h₇, -⟩ := Ends.call_told h₆ htold₆
          obtain ⟨rfl, rfl⟩ := ends_done h₇
          have hverdict : p.verdict e = .ticked true := by
            simp [Riding.verdict, hremoved, hfrozen, hvehicle, hcarries]
          rw [hverdict]
          exact ⟨rfl, rfl⟩

/-- Told by a riding, offers settle each entity as the riding says, and take off whom it says. -/
theorem offerAll_told {entities : List E} {r : Except Fault Unit} (h : Ends o (offerAll entities) H r)
    (htold : ∀ ev ∈ H, ev.Told p) : Settles p entities H r := by
  induction entities generalizing H with
  | nil =>
    obtain ⟨rfl, rfl⟩ := ends_done h
    exact ⟨rfl, rfl, rfl⟩
  | cons e rest ih =>
    rw [offerAll, bind_eq, offer, bind_eq, bind_assoc] at h
    obtain ⟨H₁, rfl, h₁⟩ := h.note_inv
    have htold₁ : ∀ ev ∈ H₁, ev.Told p := (List.forall_mem_cons.mp htold).2
    rw [bind_eq, bind_assoc] at h₁
    rcases h₁.bind_inv with ⟨result, H₂, H₃, rfl, h₂, h₃⟩ | ⟨fault, rfl, h₂⟩
    · obtain ⟨hresult, hoff⟩ := contract_told h₂ fun ev hev => htold₁ ev (List.mem_append_left _ hev)
      have hsettle : Ends o ((note (.settled e result)).bind fun _ => offerAll rest) H₃ r := h₃
      obtain ⟨H₄, rfl, h₄⟩ := hsettle.note_inv
      obtain ⟨hr, hsettled, hoffs⟩ := ih h₄ fun ev hev => htold₁ ev (by simp [hev])
      have hquiet : settlements H₂ = [] := by
        refine List.filterMap_eq_nil_iff.mpr fun ev hev => ?_
        obtain ⟨c, a, rfl, -⟩ := h₂.asksOnly (contract_asksOnly e) ev hev
        rfl
      obtain rfl : result = p.verdict e := Except.ok.inj hresult
      refine ⟨hr, ?_, ?_⟩
      · calc settlements (.marked o (.offered e) :: (H₂ ++ .marked o (.settled e (p.verdict e)) :: H₄))
            = settlements H₂ ++ (e, p.verdict e) :: settlements H₄ := settlements_append H₂ _
          _ = (e, p.verdict e) :: rest.map fun e => (e, p.verdict e) := by rw [hquiet, hsettled, List.nil_append]
      · calc dismounts (.marked o (.offered e) :: (H₂ ++ .marked o (.settled e (p.verdict e)) :: H₄))
            = dismounts H₂ ++ dismounts H₄ := dismounts_append H₂ _
          _ = (e :: rest).filter fun e => p.verdict e = .ticked true := by
              rw [hoff, hoffs, List.filter_cons]
              by_cases hverdict : p.verdict e = .ticked true
              · simp [hverdict]
              · simp [hverdict]
    · obtain ⟨hresult, -⟩ := contract_told h₂ htold₁
      cases hresult

theorem Settles.after {entities : List E} {r : Except Fault Unit} {before : List (Event C E)}
    (h : Settles p entities H r) (hbefore : ∀ ev ∈ before, ¬ ev.OfOffer) : Settles p entities (before ++ H) r := by
  obtain ⟨hsettled, hoff⟩ := quiet_of_not_ofOffer hbefore
  refine ⟨h.result, ?_, ?_⟩
  · rw [settlements_append, hsettled, List.nil_append, h.settlements]
  · rw [dismounts_append, hoff, List.nil_append, h.dismounts]

theorem regionTask_told {speed : UInt32} {keys : List Key} {entities : List E} {r : Except Fault Unit}
    (h : Ends o (regionTask speed keys entities) H r) (htold : ∀ ev ∈ H, ev.Told p) : Settles p entities H r := by
  cases regionTask_ends h with
  | lookup pairs k rest fault hkeys => exact (htold (.called o (.lookup k) (.error fault)) (by simp)).elim
  | tick pairs done q rest fault hkeys hhits =>
    exact (htold (.called o (.tickChunk q.2 speed) (.error fault)) (by simp)).elim
  | offer pairs H' r hkeys hoffers =>
    have hsettles := offerAll_told hoffers fun ev hev => htold ev (by simp [hev])
    exact (hsettles.after fun _ => not_ofOffer_tickedUnder).after fun _ => not_ofOffer_lookedUp

theorem sweep_told {speed : UInt32} {chunks : List C} {entities : List E} {r : Except Fault Unit}
    (h : Ends o (sweep speed chunks entities) H r) (htold : ∀ ev ∈ H, ev.Told p) : Settles p entities H r := by
  rw [sweep, bind_eq] at h
  rcases h.bind_inv with ⟨_, H₁, H₂, rfl, h₁, h₂⟩ | ⟨fault, rfl, h₁⟩
  · exact (offerAll_told h₂ fun ev hev => htold ev (List.mem_append_right _ hev)).after (not_ofOffer_tickAll h₁)
  · rcases tickAll_ends h₁ with ⟨-, hr⟩ | ⟨_, c, _, fault', -, rfl, -⟩
    · cases hr
    · exact (htold (.called o (.tickChunk c speed) (.error fault')) (by simp)).elim

end Program

end Told

end GridTick
