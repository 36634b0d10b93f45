import GridTick.Settings.Config

/-!
# GridTick.Tick.Executor — the pool of workers

A pool has at least one worker.  Shutting it down asks the workers to leave and waits for each of them to report,
until a deadline.  The deadline is found by adding the timeout to the reading of a clock; a sum outside the clock's
range is a fault.

* `Clock`: a reading and the last instant that it can show.
* `Receipt`: what arrives while a shutdown waits; a list that ends early stands for the deadline passing.
* `Executor.shutdown`: the wait, which ends in success, in the timeout error, or in the fault.
-/

namespace GridTick

/-- A pool of workers. -/
structure Executor where
  threads : Nat
deriving DecidableEq, Repr

/-- Reading of a clock in nanoseconds, and the number of seconds at which it overflows. -/
structure Clock where
  now : Nat
  limitSeconds : Nat := twoTo 63
deriving DecidableEq, Repr

namespace Clock

/-- The instant a span after the reading; a fault when the clock cannot show it. -/
def deadline (c : Clock) (d : Duration) : Except Fault Nat :=
  let instant := c.now + d.nanoseconds
  if instant < c.limitSeconds * Duration.perSecond then .ok instant
  else .error (.text "overflow when adding duration to instant")

end Clock

inductive Receipt where
  | exited (worker : Nat)
  | disconnected
deriving DecidableEq, Repr

namespace Executor

/-- A pool of that many workers, of one when none is asked for. -/
def ofThreads (n : Nat) : Executor := ⟨max n 1⟩

/-- A pool of the configured size. -/
def ofConfig (c : Config) : Executor := ofThreads c.threads.toNat

def workerName (i : Nat) : String := s!"Region Ticking {i}"

def describe (e : Executor) : String := s!"RegionExecutor \x7b threads: {e.threads} \x7d"

/-- Wait for `remaining` workers; the list of receipts ends where the deadline passes. -/
def await (timeout : Duration) : Nat → List Receipt → Except TickError Unit
  | 0, _ => .ok ()
  | _ + 1, .disconnected :: _ => .ok ()
  | remaining + 1, .exited _ :: rest => await timeout remaining rest
  | remaining + 1, [] => .error (.shutdownTimeout timeout (remaining + 1))

def shutdown (e : Executor) (clock : Clock) (timeout : Duration) (receipts : List Receipt) :
    Except Fault (Except TickError Unit) :=
  (clock.deadline timeout).map fun _ => await timeout e.threads receipts

/-- The receipts of a pool whose first `n` workers leave in time. -/
def exits (n : Nat) : List Receipt := (List.range n).map .exited

end Executor

end GridTick
