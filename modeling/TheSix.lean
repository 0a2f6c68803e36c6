import TheSix.Basic
import TheSix.Lib.Probe
import TheSix.Lib.OpenTable
import TheSix.Lib.Run
import TheSix.Lib.Ranks
import TheSix.Telemetry.Latency
import TheSix.Tier.FixedTierStub
import TheSix.Tier.Pool
import TheSix.Tier.StubRefinement
import TheSix.Tier.Accounting
import TheSix.Tier.RoundRobin
import TheSix.Tier.Integrity
import TheSix.Tier.Oxigraph
import TheSix.Tier.Hex
import TheSix.Tier.Provenance
import TheSix.Tier.CacheTier
import TheSix.Control.Entry
import TheSix.Control.KeySlot
import TheSix.Control.Cachelito
import TheSix.Control.Lifetimes
import TheSix.Control.Refinement
import TheSix.Control.Steps
import TheSix.Control.Stats
import TheSix.Control.Cells
import TheSix.Control.Token
import TheSix.Control.Aborts
import TheSix.Control.Generations
import TheSix.Lib.Coroutine
import TheSix.Lib.Slice
import TheSix.Manager.Context
import TheSix.Manager.Framing
import TheSix.Manager.World
import TheSix.Manager.Effects
import TheSix.Manager.Programs
import TheSix.Manager.System
import TheSix.Manager.Protocol
import TheSix.Manager.Runs
import TheSix.Manager.Upkeep
import TheSix.Manager.Recover
import TheSix.Concurrency.Eviction
import TheSix.Concurrency.Fence
import TheSix.Concurrency.Expiry
import TheSix.Concurrency.Relocation
import TheSix.Concurrency.SingleFlight
import TheSix.Concurrency.Freshness
import TheSix.Concurrency.Refreshing
import TheSix.Concurrency.LadderWalk
import TheSix.Concurrency.Disciplines
import TheSix.Concurrency.Recovery
import TheSix.Concurrency.ExactlyOnce
import TheSix.Concurrency.Joining
import TheSix.Concurrency.Agreement
import TheSix.Concurrency.Authority
import TheSix.Concurrency.Wakeup
import TheSix.Lib.Trace
import TheSix.Concurrency.Visibility
import TheSix.Concurrency.Wedge
import TheSix.Lib.BigStep
import TheSix.Lib.Answers
import TheSix.Lib.Paths
import TheSix.Lib.Requests
import TheSix.Lib.Tagged
import TheSix.Sequential.Calls
import TheSix.Sequential.Stages
import TheSix.Manager.Failures
import TheSix.Sequential.RecoveryAge
import TheSix.Sequential.Safety
import TheSix.Sequential.Barrier
import TheSix.Sequential.Moves
import TheSix.Sequential.Existence
import TheSix.Sequential.Deadlines
import TheSix.Sequential.Refresh
import TheSix.Sequential.Exact
import TheSix.Planes.World
import TheSix.Planes.Reads
import TheSix.Planes.Reclaim
import TheSix.Planes.Quiescence
import TheSix.Planes.Writes
import TheSix.Planes.Rounds
import TheSix.Planes.Pressure
import TheSix.Planes.Exactness
import TheSix.Planes.Tenants
import TheSix.Tier.Sled
import TheSix.Tier.Digest
import TheSix.Concurrency.SledExpiry
import TheSix.Governor.Planner
import TheSix.Governor.Census
import TheSix.Governor.Bootstrap
import TheSix.Governor.Tick
import TheSix.Sequential.Occupancy
import TheSix.Lib.Renaming
import TheSix.Manager.Payload
import TheSix.Lib.Notes
import TheSix.Lib.Ledger
import TheSix.Telemetry.Records
import TheSix.Manager.Observed
import TheSix.Manager.Recorded
import TheSix.Sequential.Removal
import TheSix.Lib.Budget
import TheSix.Manager.Budgets
import TheSix.Lib.Focus
import TheSix.Planes.Independence
import TheSix.Lib.Inert
import TheSix.Manager.Refusals
import TheSix.Lib.Xorshift
import TheSix.Fault.Plan
import TheSix.Fault.Injector
import TheSix.Lib.Echo
import TheSix.Planes.Breakers
import TheSix.Planes.Policies
import TheSix.Lib.Links
import TheSix.Tier.Forwarding
import TheSix.Governor.Report
import TheSix.Lib.Text
import TheSix.Telemetry.Line
