import GridTick.Tick.World

/-!
# GridTick.Tick.Program — sequences of calls

A `Program` is what a task or the calling thread does: it makes a call and goes on with the answer, or notes something
down, until it is done.  It says nothing of the world, so what it may do is known whatever the answers are.

* `Program.run`: all of a program against a world; a fault ends it where it stands.
* `Program.step`: one call or one note.
* `Trail`: what it leaves: the state, the keys noted as ticked, and the events.
-/

namespace GridTick

/-- A sequence of calls and notes that ends in a value. -/
inductive Program (C E α : Type) where
  | done (value : α)
  | ask (call : Call C E) (next : call.Answer → Program C E α)
  | mark (m : Mark E) (rest : Program C E α)

namespace Program

variable {C E α β : Type}

/-- Go on with the value of a program. -/
def bind (p : Program C E α) (f : α → Program C E β) : Program C E β :=
  match p with
  | .done a => f a
  | .ask c next => .ask c fun a => (next a).bind f
  | .mark m rest => .mark m (rest.bind f)

instance : Monad (Program C E) where
  pure := .done
  bind := bind

def call (c : Call C E) : Program C E c.Answer := .ask c .done

def note (m : Mark E) : Program C E Unit := .mark m (.done ())

@[simp] theorem done_bind (a : α) (f : α → Program C E β) : (Program.done a).bind f = f a := rfl

@[simp] theorem ask_bind (c : Call C E) (next : c.Answer → Program C E α) (f : α → Program C E β) :
    (Program.ask c next).bind f = .ask c fun a => (next a).bind f := rfl

@[simp] theorem mark_bind (m : Mark E) (rest : Program C E α) (f : α → Program C E β) :
    (Program.mark m rest).bind f = .mark m (rest.bind f) := rfl

@[simp] theorem pure_eq (a : α) : (pure a : Program C E α) = .done a := rfl

@[simp] theorem bind_eq (p : Program C E α) (f : α → Program C E β) : (p >>= f) = p.bind f := rfl

theorem bind_done (p : Program C E α) : p.bind .done = p := by
  induction p with
  | done a => rfl
  | ask c next ih => simp only [ask_bind, ih]
  | mark m rest ih => simp only [mark_bind, ih]

theorem bind_assoc {γ : Type} (p : Program C E α) (f : α → Program C E β) (g : β → Program C E γ) :
    (p.bind f).bind g = p.bind fun a => (f a).bind g := by
  induction p with
  | done a => rfl
  | ask c next ih => simp only [ask_bind, ih]
  | mark m rest ih => simp only [mark_bind, ih]

end Program

/-- The keys noted as ticked, after one more note. -/
def Mark.record {E : Type} : Mark E → KeySet → KeySet
  | .recorded k, keys => keys.insert k
  | .offered _, keys => keys
  | .settled _ _, keys => keys

structure Trail (σ C E : Type) where
  state : σ
  recorded : KeySet
  events : Array (Event C E)

namespace Program

variable {σ C E α β : Type}

def step (w : World σ C E) (origin : Origin) :
    Program C E α → Trail σ C E → Except Fault (Program C E α) × Trail σ C E
  | .done a, trail => (.ok (.done a), trail)
  | .mark m rest, ⟨s, keys, events⟩ => (.ok rest, ⟨s, m.record keys, events.push (.marked origin m)⟩)
  | .ask c next, ⟨s, keys, events⟩ =>
    match w.answer c s with
    | (.ok a, s) => (.ok (next a), ⟨s, keys, events.push (.called origin c (.ok a))⟩)
    | (.error fault, s) => (.error fault, ⟨s, keys, events.push (.called origin c (.error fault))⟩)

/-- Do everything up to the end or the first fault. -/
def run (w : World σ C E) (origin : Origin) : Program C E α → Trail σ C E → Except Fault α × Trail σ C E
  | .done a, trail => (.ok a, trail)
  | .mark m rest, ⟨s, keys, events⟩ => rest.run w origin ⟨s, m.record keys, events.push (.marked origin m)⟩
  | .ask c next, ⟨s, keys, events⟩ =>
    match w.answer c s with
    | (.ok a, s) => (next a).run w origin ⟨s, keys, events.push (.called origin c (.ok a))⟩
    | (.error fault, s) => (.error fault, ⟨s, keys, events.push (.called origin c (.error fault))⟩)

/-- Going on after one step is running. -/
theorem run_step (w : World σ C E) (origin : Origin) (p : Program C E α) (trail : Trail σ C E) :
    p.run w origin trail =
      match p.step w origin trail with
      | (.ok q, trail') => q.run w origin trail'
      | (.error fault, trail') => (.error fault, trail') := by
  cases p with
  | done a => rfl
  | mark m rest => rfl
  | ask c next =>
    obtain ⟨s, keys, events⟩ := trail
    rcases h : w.answer c s with ⟨r, s'⟩
    cases r <;> simp [run, step, h]

/-- A sequence of two programs runs the first, then the second. -/
theorem run_bind (w : World σ C E) (origin : Origin) (p : Program C E α) (f : α → Program C E β)
    (trail : Trail σ C E) :
    (p.bind f).run w origin trail =
      match p.run w origin trail with
      | (.ok a, trail') => (f a).run w origin trail'
      | (.error fault, trail') => (.error fault, trail') := by
  induction p generalizing trail with
  | done a => rfl
  | mark m rest ih =>
    obtain ⟨s, keys, events⟩ := trail
    simpa only [mark_bind, run] using ih _
  | ask c next ih =>
    obtain ⟨s, keys, events⟩ := trail
    simp only [ask_bind, run]
    rcases h : w.answer c s with ⟨r, s'⟩
    cases r with
    | ok a => exact ih a _
    | error fault => rfl

end Program

end GridTick
