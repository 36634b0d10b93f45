import GridTick.Tick.Fault

/-!
# GridTick.Settings.Config — how the engine is set up

A `Config` says whether regions are ticked on workers, how many workers there are, and how long a shutdown waits.
The worker count must lie between one and ten; any other is replaced by the default, with a notice.

* `Config.validate`: the replacement.
* `TickSettings`: what may change from tick to tick.
* `Notice`: every line that the engine logs, by its cause; `Notice.line` puts it into words.
-/

namespace GridTick

/-- Settings of the engine. -/
structure Config where
  enable : Bool
  threads : UInt64
  timeoutSeconds : UInt64
deriving DecidableEq, Repr

/-- Worker count used when none, or an invalid one, is given. -/
def defaultThreads : UInt64 := 4

/-- Largest worker count. -/
def maxThreads : UInt64 := 10

namespace Config

/-- Regions on, four workers, ten seconds. -/
def standard : Config := ⟨true, defaultThreads, 10⟩

instance : Inhabited Config := ⟨standard⟩

/-- How long a shutdown waits. -/
def timeout (c : Config) : Duration := Duration.ofSeconds c.timeoutSeconds.toNat

/-- Whether the worker count is in range. -/
def isValid (c : Config) : Bool := 1 ≤ c.threads && c.threads ≤ maxThreads

end Config

/-- A line of the log, by its cause. -/
inductive Notice where
  | threadsReset (given : UInt64)
  | sizeDiffers (configured : UInt64) (threads : Nat)
  | regionFailed (region : RegionId) (error : TickError) (ticked : Nat)
  | deferredFailed (error : TickError)
deriving DecidableEq, Repr

/-- How urgent a line is. -/
inductive Urgency where
  | warning
  | error
deriving DecidableEq, Repr

/-- A log line: its urgency, its message, and named values in text. -/
structure LogLine where
  urgency : Urgency
  message : String
  fields : List (String × String)
deriving DecidableEq, Repr

/-- The notice in words. -/
def Notice.line : Notice → LogLine
  | .threadsReset given =>
    let default := s!"resetting to default ({defaultThreads.toNat})"
    ⟨.warning, s!"Invalid regionized chunk ticking thread count: {given.toNat}, {default}", []⟩
  | .sizeDiffers configured threads =>
    ⟨.warning, "Region executor size differs from configured thread count",
      [("configured", toString configured.toNat), ("threads", toString threads)]⟩
  | .regionFailed region error ticked =>
    ⟨.error, "Error during region chunk ticking",
      [("region", region.text), ("error", error.message), ("ticked", toString ticked)]⟩
  | .deferredFailed error => ⟨.error, "Deferred task failed", [("error", error.message)]⟩

/-- The settings with a worker count in range, and the notice given when it had to be replaced. -/
def Config.validate (c : Config) : Config × List Notice :=
  if c.isValid then (c, []) else ({ c with threads := defaultThreads }, [.threadsReset c.threads])

/-- What may change from tick to tick: how far agents see, and how fast chunks tick at random. -/
structure TickSettings where
  viewDistance : UInt32
  randomTickSpeed : UInt32
deriving DecidableEq, Repr

namespace TickSettings

/-- A view of ten chunks and three random ticks. -/
def standard : TickSettings := ⟨10, 3⟩

instance : Inhabited TickSettings := ⟨standard⟩

def describe (s : TickSettings) : String :=
  s!"TickSettings \x7b tick_view_distance: {s.viewDistance.toNat}, random_tick_speed: {s.randomTickSpeed.toNat} \x7d"

end TickSettings

end GridTick
