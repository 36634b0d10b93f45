import GridTick.Tracking.Basic

/-!
# GridTick.Tracking.Shared — tracking behind a lock

Several threads share one collection.  A traversal takes the lock when it begins and gives it back when it ends,
wherever it stands then.  Every other call is posted first and takes effect when it is served; none is served while a
traversal is under way.

* `Shared.begin`, `Shared.advance`, `Shared.release`: a traversal.
* `Shared.post`, `Shared.serve`: any other call.
* `Shared.sizeHint`: what the traversal says is still to come.
-/

namespace GridTick

/-- A call on the collection other than a traversal. -/
inductive Request (E : Type) where
  | insert (e : E)
  | remove (e : E)
  | contains (e : E)
  | count
deriving Repr

/-- What a call answers. -/
inductive Response where
  | truth (b : Bool)
  | number (n : Nat)
deriving DecidableEq, Repr

/-- A collection, the place of the traversal that holds its lock, and the calls that wait. -/
structure Shared (E I : Type) [Ord I] where
  tracked : Tracked E I
  cursor : Option Nat
  waiting : List (Request E)

def Tracked.serve {E I : Type} [Ord I] [Std.TransOrd I] [Identified E I] (t : Tracked E I) :
    Request E → Response × Tracked E I
  | .insert e => ((.truth (t.insert e).1), (t.insert e).2)
  | .remove e => ((.truth (t.remove e).1), (t.remove e).2)
  | .contains e => (.truth (t.contains e), t)
  | .count => (.number t.size, t)

namespace Shared

variable {E I : Type} [Ord I]

def ofTracked (t : Tracked E I) : Shared E I := ⟨t, none, []⟩

def begin (s : Shared E I) : Shared E I :=
  match s.cursor with
  | none => { s with cursor := some 0 }
  | some _ => s

def advance (s : Shared E I) : Option E × Shared E I :=
  match s.cursor with
  | none => (none, s)
  | some place =>
    match s.tracked.order[place]? with
    | none => (none, s)
    | some e => (some e, { s with cursor := some (place + 1) })

/-- Bounds on what is still to come: the lower and the upper one agree. -/
def sizeHint (s : Shared E I) : Nat × Option Nat :=
  let left := s.tracked.size - s.cursor.getD 0
  (left, some left)

def release (s : Shared E I) : Shared E I := { s with cursor := none }

/-- Up to `limit` entities of the traversal, and the hints given before the first and after each. -/
def read : Nat → Shared E I → List E × List (Nat × Option Nat) × Shared E I
  | 0, s => ([], [s.sizeHint], s)
  | limit + 1, s =>
    match s.advance with
    | (none, s') => ([], [s.sizeHint], s')
    | (some e, s') =>
      let (seen, hints, s'') := read limit s'
      (e :: seen, s.sizeHint :: hints, s'')

def post (s : Shared E I) (r : Request E) : Shared E I :=
  { s with waiting := s.waiting ++ [r] }

variable [Std.TransOrd I] [Identified E I]

def serve (s : Shared E I) (i : Nat) : Option (Response × Shared E I) :=
  match s.cursor, s.waiting[i]? with
  | none, some r =>
    let (answer, t) := s.tracked.serve r
    some (answer, { s with tracked := t, waiting := s.waiting.eraseIdx i })
  | _, _ => none

def call (s : Shared E I) (r : Request E) : Option (Response × Shared E I) :=
  (s.post r).serve s.waiting.length

end Shared

end GridTick
