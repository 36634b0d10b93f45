import GridTick.Tick.Fault

/-!
# GridTick.Tick.Deferred — work that a tick joins at its end

Deferred work runs beside a tick and is joined after everything else.  A failure of it is reported and changes
nothing.
-/

namespace GridTick

/-- Work joined at the end of a tick. -/
inductive Deferred where
  | unit
  /-- A thread, which returned or raised a fault. -/
  | thread (raised : Option Fault)
  /-- A signal line holding so many messages, with no sender left. -/
  | signal (messages : Nat)
  | absent
  | present (work : Deferred)
  | failing (error : TickError)
deriving DecidableEq, Inhabited, Repr

/-- Wait for the work.  A signal line without a sender counts as the signal. -/
def Deferred.join : Deferred → Except TickError Unit
  | .unit => .ok ()
  | .thread none => .ok ()
  | .thread (some fault) => .error (.deferredTaskFailed fault.message)
  | .signal _ => .ok ()
  | .absent => .ok ()
  | .present work => work.join
  | .failing error => .error error

end GridTick
