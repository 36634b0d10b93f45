import Mathlib.Data.List.Basic
import GridTick.Tick.History

/-!
# GridTick.Proofs.Tick.Ends — what a program may leave in the history

What a program does depends on the answers alone, and other tasks change the state between its calls.  So its
possible histories are told without a world.

* `Program.Ends o p H r`: on behalf of `o`, the program `p` may leave the events `H` and end with `r`.
* `Program.Ends.bind_inv`: the histories of a sequence.
* `Program.AsksOnly`: bounds on what a program may ask, which its histories keep.
* `Program.ends_of_run`, `Program.ends_of_step`: runs and steps in a world leave such histories.
-/

namespace GridTick

variable {σ C E α β : Type}

namespace Program

/-- On behalf of `o`, a program may leave these events and end so. -/
inductive Ends (o : Origin) : Program C E α → List (Event C E) → Except Fault α → Prop
  | done (a : α) : Ends o (.done a) [] (.ok a)
  | fault (c : Call C E) (next : c.Answer → Program C E α) (fault : Fault) :
    Ends o (.ask c next) [.called o c (.error fault)] (.error fault)
  | asked {c : Call C E} {next : c.Answer → Program C E α} {a : c.Answer} {H : List (Event C E)}
      {r : Except Fault α} : Ends o (next a) H r → Ends o (.ask c next) (.called o c (.ok a) :: H) r
  | marked {m : Mark E} {rest : Program C E α} {H : List (Event C E)} {r : Except Fault α} :
    Ends o rest H r → Ends o (.mark m rest) (.marked o m :: H) r

variable {o : Origin} {H : List (Event C E)}

/-! ## Sequences -/

theorem ends_done {a : α} {r : Except Fault α} (h : Ends o (Program.done a : Program C E α) H r) :
    H = [] ∧ r = .ok a := by
  cases h
  exact ⟨rfl, rfl⟩

/-- A sequence of two programs leaves what the first leaves and, unless that ended in a fault, what the second
leaves. -/
theorem Ends.bind_inv {p : Program C E α} {f : α → Program C E β} {r : Except Fault β}
    (h : Ends o (p.bind f) H r) :
    (∃ a H₁ H₂, H = H₁ ++ H₂ ∧ Ends o p H₁ (.ok a) ∧ Ends o (f a) H₂ r) ∨
      ∃ fault, r = .error fault ∧ Ends o p H (.error fault) := by
  induction p generalizing H with
  | done a => exact .inl ⟨a, [], H, rfl, .done a, h⟩
  | ask c next ih =>
    cases h with
    | fault _ _ fault => exact .inr ⟨fault, rfl, .fault c next fault⟩
    | asked h =>
      rcases ih _ h with ⟨b, H₁, H₂, rfl, h₁, h₂⟩ | ⟨fault, hr, h₁⟩
      · exact .inl ⟨b, _ :: H₁, H₂, rfl, .asked h₁, h₂⟩
      · exact .inr ⟨fault, hr, .asked h₁⟩
  | mark m rest ih =>
    cases h with
    | marked h =>
      rcases ih h with ⟨b, H₁, H₂, rfl, h₁, h₂⟩ | ⟨fault, hr, h₁⟩
      · exact .inl ⟨b, _ :: H₁, H₂, rfl, .marked h₁, h₂⟩
      · exact .inr ⟨fault, hr, .marked h₁⟩

/-- A call and what follows it. -/
theorem Ends.call_inv {c : Call C E} {f : c.Answer → Program C E α} {r : Except Fault α}
    (h : Ends o ((Program.call c).bind f) H r) :
    (∃ a H', H = .called o c (.ok a) :: H' ∧ Ends o (f a) H' r) ∨
      ∃ fault, r = .error fault ∧ H = [.called o c (.error fault)] := by
  cases h with
  | fault _ _ fault => exact .inr ⟨fault, rfl, rfl⟩
  | asked h => exact .inl ⟨_, _, rfl, h⟩

/-- A note and what follows it. -/
theorem Ends.note_inv {m : Mark E} {f : Unit → Program C E α} {r : Except Fault α}
    (h : Ends o ((Program.note m).bind f) H r) : ∃ H', H = .marked o m :: H' ∧ Ends o (f ()) H' r := by
  cases h with
  | marked h => exact ⟨_, rfl, h⟩

/-! ## Faults and origins -/

/-- A program that ends well has seen no fault. -/
theorem Ends.fault_free {p : Program C E α} {a : α} (h : Ends o p H (.ok a)) : ∀ e ∈ H, e.fault? = none := by
  generalize hr : (Except.ok a : Except Fault α) = r at h
  induction h with
  | done => simp
  | fault => cases hr
  | asked _ ih => simpa [Event.fault?] using ih hr
  | marked _ ih => simpa [Event.fault?] using ih hr

/-- A program that ends in a fault has seen that fault alone, at its last call. -/
theorem Ends.fault_last {p : Program C E α} {fault : Fault} (h : Ends o p H (.error fault)) :
    ∃ H' c, H = H' ++ [.called o c (.error fault)] ∧ ∀ e ∈ H', e.fault? = none := by
  generalize hr : (Except.error fault : Except Fault α) = r at h
  induction h with
  | done => cases hr
  | fault c next f =>
    cases hr
    exact ⟨[], c, rfl, by simp⟩
  | @asked c next a H r _ ih =>
    obtain ⟨H', c', rfl, hH'⟩ := ih hr
    exact ⟨.called o c (.ok a) :: H', c', rfl, by simpa [Event.fault?] using hH'⟩
  | @marked m rest H r _ ih =>
    obtain ⟨H', c', rfl, hH'⟩ := ih hr
    exact ⟨.marked o m :: H', c', rfl, by simpa [Event.fault?] using hH'⟩

theorem Ends.origin {p : Program C E α} {r : Except Fault α} (h : Ends o p H r) :
    ∀ e ∈ H, e.origin? = some o := by
  induction h with
  | done => simp
  | fault => simp [Event.origin?]
  | asked _ ih => simpa [Event.origin?] using ih
  | marked _ ih => simpa [Event.origin?] using ih

/-! ## What a program may ask -/

/-- The program notes nothing, and all its calls are of a kind. -/
def AsksOnly (P : Call C E → Prop) : Program C E α → Prop
  | .done _ => True
  | .ask c next => P c ∧ ∀ a, (next a).AsksOnly P
  | .mark _ _ => False

theorem AsksOnly.bind {P : Call C E → Prop} {p : Program C E α} {f : α → Program C E β} (hp : p.AsksOnly P)
    (hf : ∀ a, (f a).AsksOnly P) : (p.bind f).AsksOnly P := by
  induction p with
  | done a => exact hf a
  | ask c next ih => exact ⟨hp.1, fun a => ih a (hp.2 a)⟩
  | mark m rest => exact hp.elim

theorem AsksOnly.call {P : Call C E → Prop} {c : Call C E} (hc : P c) : (Program.call c).AsksOnly P :=
  ⟨hc, fun _ => trivial⟩

theorem Ends.asksOnly {P : Call C E → Prop} {p : Program C E α} {r : Except Fault α} (h : Ends o p H r)
    (hp : p.AsksOnly P) : ∀ e ∈ H, ∃ c a, e = .called o c a ∧ P c := by
  induction h with
  | done => simp
  | fault c _ f => exact fun e he => ⟨c, _, List.mem_singleton.mp he, hp.1⟩
  | @asked c next a H r _ ih =>
    intro e he
    rcases List.mem_cons.mp he with rfl | he
    · exact ⟨c, _, rfl, hp.1⟩
    · exact ih (hp.2 a) e he
  | marked => exact hp.elim

end Program

/-! ## Runs and steps -/

/-- An event whose answer, if it is a call, the world gives in some state. -/
def World.Gives (w : World σ C E) : Event C E → Prop
  | .called _ c a => ∃ s, (w.answer c s).1 = a
  | .marked _ _ => True
  | .noticed _ => True
  | .joined => True

/-- One trail goes on where another stopped, by these events. -/
structure Trail.Extends (w : World σ C E) (before after : Trail σ C E) (H : List (Event C E)) : Prop where
  events : after.events.toList = before.events.toList ++ H
  recorded : after.recorded = recordedKeys before.recorded H
  given : ∀ e ∈ H, w.Gives e

theorem recordedKeys_append (keys : KeySet) (H₁ H₂ : List (Event C E)) :
    recordedKeys keys (H₁ ++ H₂) = recordedKeys (recordedKeys keys H₁) H₂ := by
  simp [recordedKeys]

section Steps

variable {w : World σ C E} {o : Origin} {a b c : Trail σ C E} {H₁ H₂ : List (Event C E)}

theorem Trail.Extends.refl : a.Extends w a [] := ⟨by simp, rfl, by simp⟩

theorem Trail.Extends.trans (h₁ : a.Extends w b H₁) (h₂ : b.Extends w c H₂) : a.Extends w c (H₁ ++ H₂) := by
  refine ⟨?_, ?_, ?_⟩
  · rw [h₂.events, h₁.events, List.append_assoc]
  · rw [h₂.recorded, h₁.recorded, recordedKeys_append]
  · intro e he
    rcases List.mem_append.mp he with he | he
    · exact h₁.given e he
    · exact h₂.given e he

theorem Trail.extends_marked (t : Trail σ C E) (m : Mark E) :
    t.Extends w ⟨t.state, m.record t.recorded, t.events.push (.marked o m)⟩ [.marked o m] :=
  ⟨by simp, rfl, by simp [World.Gives]⟩

theorem Trail.extends_called (t : Trail σ C E) (call : Call C E) :
    t.Extends w ⟨(w.answer call t.state).2, t.recorded, t.events.push (.called o call (w.answer call t.state).1)⟩
      [.called o call (w.answer call t.state).1] :=
  ⟨by simp, rfl, by simp [World.Gives]⟩

namespace Program

/-- A run extends the trail by what its program may leave. -/
theorem ends_of_run (w : World σ C E) (o : Origin) (p : Program C E α) (t : Trail σ C E) :
    ∃ H, t.Extends w (p.run w o t).2 H ∧ Ends o p H (p.run w o t).1 := by
  induction p generalizing t with
  | done a => exact ⟨[], .refl, .done a⟩
  | mark m rest ih =>
    obtain ⟨H, hext, hends⟩ := ih ⟨t.state, m.record t.recorded, t.events.push (.marked o m)⟩
    exact ⟨.marked o m :: H, (t.extends_marked m).trans hext, .marked hends⟩
  | ask call next ih =>
    obtain ⟨s, keys, events⟩ := t
    have hcalled := Trail.extends_called (w := w) (o := o) ⟨s, keys, events⟩ call
    rcases hans : w.answer call s with ⟨answer, s'⟩
    simp only [hans] at hcalled
    cases answer with
    | ok a =>
      obtain ⟨H, hext, hends⟩ := ih a ⟨s', keys, events.push (.called o call (.ok a))⟩
      refine ⟨[.called o call (.ok a)] ++ H, ?_, ?_⟩
      · simpa only [run, hans] using hcalled.trans hext
      · simp only [run, hans]
        exact .asked hends
    | error fault =>
      refine ⟨[.called o call (.error fault)], ?_, ?_⟩
      · simpa only [run, hans] using hcalled
      · simpa only [run, hans] using Ends.fault call next fault

/-- What a step leaves, put before what the rest may leave, is what the whole program may leave. -/
def StepLeaves (o : Origin) (p : Program C E α) (H : List (Event C E)) : Except Fault (Program C E α) → Prop
  | .ok rest => ∀ H' r, Ends o rest H' r → Ends o p (H ++ H') r
  | .error fault => Ends o p H (.error fault)

theorem ends_of_step (w : World σ C E) (o : Origin) (p : Program C E α) (t : Trail σ C E) :
    ∃ H, t.Extends w (p.step w o t).2 H ∧ (∀ e ∈ H, e.origin? = some o) ∧ StepLeaves o p H (p.step w o t).1 := by
  cases p with
  | done a => exact ⟨[], .refl, by simp, fun _ _ h => h⟩
  | mark m rest => exact ⟨[.marked o m], t.extends_marked m, by simp [Event.origin?], fun _ _ h => .marked h⟩
  | ask call next =>
    obtain ⟨s, keys, events⟩ := t
    have hcalled := Trail.extends_called (w := w) (o := o) ⟨s, keys, events⟩ call
    rcases hans : w.answer call s with ⟨answer, s'⟩
    simp only [hans] at hcalled
    refine ⟨[.called o call answer], ?_, by simp [Event.origin?], ?_⟩
    · cases answer <;> simpa only [step, hans] using hcalled
    · cases answer with
      | ok a =>
        simp only [step, hans, StepLeaves]
        exact fun H' r h => .asked h
      | error fault => simpa only [step, hans, StepLeaves] using Ends.fault call next fault

end Program

end Steps

end GridTick
