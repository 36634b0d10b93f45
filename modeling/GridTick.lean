import GridTick.Grid.Cell
import GridTick.Grid.Distance
import GridTick.Grid.Key
import GridTick.Grid.Position
import GridTick.Grid.Window
import GridTick.Number.Binary64
import GridTick.Number.Layout
import GridTick.Number.Nearest
import GridTick.Number.Power
import GridTick.Number.Shortest
import GridTick.Number.Text
import GridTick.Text.Duration
import GridTick.Text.Hidden
import GridTick.Text.Quoted
import GridTick.Random.ChaCha
import GridTick.Random.Source
import GridTick.Region.Basic
import GridTick.Region.Batch
import GridTick.Region.Cluster
import GridTick.Region.Index
import GridTick.Tracking.Basic
import GridTick.Tracking.Shared
import GridTick.Settings.Config
import GridTick.Settings.Reader
import GridTick.Settings.Refusal
import GridTick.Settings.Scalar
import GridTick.Tick.Contract
import GridTick.Tick.Deferred
import GridTick.Tick.Executor
import GridTick.Tick.Fault
import GridTick.Tick.History
import GridTick.Tick.Pool
import GridTick.Tick.Program
import GridTick.Tick.RegionTask
import GridTick.Tick.Tick
import GridTick.Tick.Ticker
import GridTick.Tick.World
import GridTick.Scripted.Mob
import GridTick.Scripted.Scenario
import GridTick.Scripted.World
import GridTick.Synthetic.Mob
import GridTick.Synthetic.Session
import GridTick.Synthetic.Spawn
import GridTick.Synthetic.World
import GridTick.Runner.Options
import GridTick.Runner.Run
import GridTick.Main
import GridTick.Proofs.Grid.Floor
import GridTick.Proofs.Grid.Plane
import GridTick.Proofs.Grid.Ring
import GridTick.Proofs.Grid.Square
import GridTick.Proofs.Grid.Walk
import GridTick.Proofs.Number.Rounding
import GridTick.Proofs.Number.Value
import GridTick.Proofs.Region.Assignment
import GridTick.Proofs.Region.Components
import GridTick.Proofs.Region.Connectivity
import GridTick.Proofs.Region.Distribution
import GridTick.Proofs.Region.OnePass
import GridTick.Proofs.Region.Ownership
import GridTick.Proofs.Tracking.Chronicle
import GridTick.Proofs.Tracking.Guard
import GridTick.Proofs.Tracking.Members
import GridTick.Proofs.Settings.Acceptance
import GridTick.Proofs.Settings.Document
import GridTick.Proofs.Settings.Numeral
import GridTick.Proofs.Settings.Scalars
import GridTick.Proofs.Settings.Spelling
import GridTick.Proofs.Tick.Accounts
import GridTick.Proofs.Tick.Alone
import GridTick.Proofs.Tick.AnyOrder
import GridTick.Proofs.Tick.Batch
import GridTick.Proofs.Tick.ChunkCoverage
import GridTick.Proofs.Tick.Commuting
import GridTick.Proofs.Tick.Completion
import GridTick.Proofs.Tick.DeferredWork
import GridTick.Proofs.Tick.Ends
import GridTick.Proofs.Tick.EntityContract
import GridTick.Proofs.Tick.EntityCoverage
import GridTick.Proofs.Tick.Footprint
import GridTick.Proofs.Tick.Histories
import GridTick.Proofs.Tick.Isolation
import GridTick.Proofs.Tick.KeyOrder
import GridTick.Proofs.Tick.OutOfSight
import GridTick.Proofs.Tick.Phases
import GridTick.Proofs.Tick.Placement
import GridTick.Proofs.Tick.Prefixes
import GridTick.Proofs.Tick.RegionGeometry
import GridTick.Proofs.Tick.Riding
import GridTick.Proofs.Tick.SameWork
import GridTick.Proofs.Tick.Schedule
import GridTick.Proofs.Tick.Shutdown
import GridTick.Proofs.Tick.Skipped
import GridTick.Proofs.Tick.TaskHistory
import GridTick.Proofs.Tick.Terms
import GridTick.Proofs.Tick.Turns
import GridTick.Proofs.Synthetic.Ages
import GridTick.Proofs.Synthetic.Coverage
import GridTick.Proofs.Synthetic.Herd
import GridTick.Proofs.Synthetic.Refresh
import GridTick.Proofs.Synthetic.Riders
import GridTick.Proofs.Synthetic.Spawned
import GridTick.Proofs.Synthetic.Spawners
import GridTick.Proofs.Synthetic.Totals
