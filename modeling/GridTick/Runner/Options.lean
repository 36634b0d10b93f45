import GridTick.Number.Text
import GridTick.Number.Layout
import GridTick.Settings.Config

/-!
# GridTick.Runner.Options — what a run is told

A run takes its numbers from named variables.  A variable that is unset or does not hold such a number counts with its
default.
-/

namespace GridTick.Runner

/-- Numbers of a run. -/
structure Options where
  ticks : Nat
  targetRate : Binary64
  players : Nat
  entities : Nat
  viewDistance : UInt32
  seed : UInt64
deriving Repr

/-- Variable that names the configuration file. -/
def configVariable : String := "RCT_CONFIG"

/-- The other variables that a run reads. -/
def variableNames : List String := ["TICKS", "TARGET_TPS", "PLAYERS", "ENTITIES", "VIEW_DISTANCE", "SEED"]

/-- Doubles in the log: positional from `10^-4` to below `10^16`, else with a bare exponent; a tie goes away from
zero. -/
def layout : Layout := ⟨-4, 15, false, .away⟩

namespace Options

/-- A whole number from a variable. -/
def whole (lookup : String → Option String) (name : String) (limit default : Nat) : Nat :=
  ((lookup name).bind (readWhole limit)).getD default

/-- The numbers that the variables give. -/
def ofVariables (lookup : String → Option String) : Options where
  ticks := whole lookup "TICKS" (twoTo 64 - 1) 200
  targetRate := ((lookup "TARGET_TPS").bind readSingle).getD (Binary64.ofRatio false ⟨20, 1⟩)
  players := whole lookup "PLAYERS" (twoTo 64 - 1) 16
  entities := whole lookup "ENTITIES" (twoTo 64 - 1) 2000
  viewDistance := UInt32.ofNat (whole lookup "VIEW_DISTANCE" (twoTo 32 - 1) 8)
  seed := UInt64.ofNat (whole lookup "SEED" (twoTo 64 - 1) 24301)

/-- Longest time that a tick may be stretched to, in nanoseconds. -/
def longestPeriod : Nat := twoTo 64 * tenTo 9

/-- Nanoseconds that a tick takes at least: none when the rate is not a positive number, or so low that the time is
too long. -/
def period (o : Options) : Nat :=
  match o.targetRate with
  | .finite false m e =>
    let nanoseconds := tenTo 9 * twoTo (-e).toNat / (m * twoTo e.toNat)
    if nanoseconds < longestPeriod then nanoseconds else 0
  | _ => 0

end Options

end GridTick.Runner
