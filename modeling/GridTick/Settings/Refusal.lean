import GridTick.Text.Quoted
import GridTick.Number.Layout

/-!
# GridTick.Settings.Refusal — why a configuration text is not accepted

A text can be malformed, can end too early, or can hold well-formed data that is not a configuration.  The last kind
has a cause, and `Refusal.message` puts it into words.
-/

namespace GridTick

/-- The entries of a configuration. -/
inductive Field where
  | enable
  | threads
  | timeout
deriving DecidableEq, Repr

namespace Field

/-- All entries, in their order. -/
def all : List Field := [.enable, .threads, .timeout]

/-- Name of an entry in a configuration text. -/
def name : Field → String
  | .enable => "enable"
  | .threads => "executor-thread-count"
  | .timeout => "shutdown-timeout-secs"

/-- The entry of a name. -/
def ofName? (s : String) : Option Field := all.find? (·.name == s)

end Field

/-- A value found where it does not fit. -/
inductive Found where
  | null
  | boolean (b : Bool)
  | integer (n : Int)
  | floating (v : Binary64)
  | text (s : String)
  | sequence
  | map
deriving DecidableEq, Repr

/-- What was expected instead. -/
inductive Expected where
  | boolean
  | threads
  | seconds
  | config
deriving DecidableEq, Repr

/-- Doubles in messages: positional from `10^-5` to below `10^16`, else with a signed exponent; a tie goes to the even
digit. -/
def Refusal.layout : Layout := ⟨-5, 15, true, .even⟩

def Found.describe : Found → String
  | .null => "null"
  | .boolean b => s!"boolean `{b}`"
  | .integer n => s!"integer `{n}`"
  | .floating v => s!"floating point `{Refusal.layout.write v}`"
  | .text s => "string " ++ Quoted.encode s
  | .sequence => "sequence"
  | .map => "map"

def Expected.describe : Expected → String
  | .boolean => "a boolean"
  | .threads => "usize"
  | .seconds => "u64"
  | .config => "struct RegionTickingConfig"

/-- Data that is not a configuration, by its cause. -/
inductive Refusal where
  | unknownField (name : String)
  | duplicateField (field : Field)
  | wrongType (found : Found) (expected : Expected)
  | wrongValue (found : Found) (expected : Expected)
deriving DecidableEq, Repr

namespace Refusal

/-- Names of all entries, each between backticks. -/
def allNames : String := ", ".intercalate (Field.all.map fun f => s!"`{f.name}`")

/-- The cause in words. -/
def message : Refusal → String
  | .unknownField name => s!"unknown field `{name}`, expected one of {allNames}"
  | .duplicateField field => s!"duplicate field `{field.name}`"
  | .wrongType found expected => s!"invalid type: {found.describe}, expected {expected.describe}"
  | .wrongValue found expected => s!"invalid value: {found.describe}, expected {expected.describe}"

end Refusal

/-- Why a text is not accepted. -/
inductive Problem where
  | malformed
  | truncated
  | refused (cause : Refusal)
deriving DecidableEq, Repr

end GridTick
