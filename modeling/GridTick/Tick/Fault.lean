import GridTick.Region.Basic
import GridTick.Text.Duration

/-!
# GridTick.Tick.Fault — what goes wrong, and in which words

A `Fault` ends a callback before it returns.  A `TickError` is a failure that the engine reports: it names its cause,
and `TickError.message` puts every cause into words.
-/

namespace GridTick

/-- What a callback raises instead of returning: a text, or something that carries none. -/
inductive Fault where
  | text (message : String)
  | wordless
deriving DecidableEq, Inhabited, Repr

/-- The fault in words, with a fixed phrase for one that carries none. -/
def Fault.message : Fault → String
  | .text m => m
  | .wordless => "unknown panic payload"

/-- A failure that the engine reports. -/
inductive TickError where
  | regionTaskFailed (region : RegionId) (message : String)
  | executorBuild (reason : String)
  | shutdownTimeout (timeout : Duration) (remaining : Nat)
  | deferredTaskFailed (message : String)
deriving DecidableEq, Repr

namespace TickError

/-- The failure in words. -/
def message : TickError → String
  | .regionTaskFailed region m => s!"region {region.text} task panicked: {m}"
  | .executorBuild reason => s!"failed to build region executor: {reason}"
  | .shutdownTimeout timeout remaining =>
    s!"region executor did not terminate within {timeout.describe} ({remaining} worker(s) still running)"
  | .deferredTaskFailed m => s!"deferred task panicked: {m}"

def poolAlreadyBuilt : String := "The global thread pool has already been initialized."

end TickError

end GridTick
