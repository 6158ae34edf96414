import FaultSweep.Topology.Compose
import FaultSweep.Gateway.Client
import FaultSweep.Sweep
import FaultSweep.Plan.Axis
import FaultSweep.Rehearsal.Stage
import FaultSweep.Rehearsal.Sandbox
import FaultSweep.Yaml.Content
import FaultSweep.Yaml.Node
import FaultSweep.Plan.Config
import FaultSweep.Plan.Basic
import FaultSweep.Plan.Load
import FaultSweep.Campaign
import FaultSweep.Console.Options
import FaultSweep.Console.Reply
import FaultSweep.Main
import FaultSweep.Proofs.Sweep.Accounting
import FaultSweep.Proofs.Sweep.Target
import FaultSweep.Proofs.Json.Numerals
import FaultSweep.Proofs.Json.Scan
import FaultSweep.Proofs.Json.Documents
import FaultSweep.Proofs.Json.Values
import FaultSweep.Proofs.Ledger.RoundTrip
import FaultSweep.Proofs.Json.Reading
import FaultSweep.Proofs.Ledger.Reading
import FaultSweep.Proofs.Sweep.Turns
import FaultSweep.Proofs.Sweep.Resumption
import FaultSweep.Proofs.Double.Packing
import FaultSweep.Proofs.Double.Arithmetic
import FaultSweep.Proofs.Json.Finite
import FaultSweep.Proofs.Trial.Measurement
import FaultSweep.Proofs.Files.Replacing
import FaultSweep.Proofs.Ledger.Persistence
import FaultSweep.Proofs.Ledger.Storable
import FaultSweep.Proofs.Ledger.Faithful
import FaultSweep.Proofs.Ledger.Journal
import FaultSweep.Proofs.Plan.Cells
import FaultSweep.Proofs.Plan.Listing
import FaultSweep.Proofs.Plan.Axes
import FaultSweep.Proofs.Plan.Acceptance
import FaultSweep.Proofs.Faults
import FaultSweep.Proofs.Trial.Stops
import FaultSweep.Proofs.Plan.Survivors
import FaultSweep.Proofs.Plan.Separation
import FaultSweep.Proofs.Trial.Exchanges
import FaultSweep.Proofs.Trial.Itinerary
import FaultSweep.Proofs.Trial.Truth
import FaultSweep.Proofs.Sweep.Independence
import FaultSweep.Proofs.Campaign.Status
import FaultSweep.Proofs.Campaign.Outstanding
import FaultSweep.Proofs.Plan.Loops
import FaultSweep.Proofs.Polling
import FaultSweep.Proofs.Trial.Budget
import FaultSweep.Proofs.Polling.Count
import FaultSweep.Proofs.Sweep.Passes
import FaultSweep.Proofs.Files.Atomic
import FaultSweep.Proofs.Gateway.Scratch
import FaultSweep.Proofs.Faults.Injection
import FaultSweep.Proofs.Gateway.Counts
import FaultSweep.Proofs.Topology.Template
import FaultSweep.Proofs.Trial.Convergence
import FaultSweep.Proofs.Command.Words
import FaultSweep.Proofs.Grid.Overlay
import FaultSweep.Proofs.Sweep.Totals
import FaultSweep.Proofs.Campaign.Totals
import FaultSweep.Proofs.Json.Compact
import FaultSweep.Proofs.Json.Typed
import FaultSweep.Proofs.Plan.RoundTrip
import FaultSweep.Proofs.Clock
import FaultSweep.Proofs.Topology.Filling
