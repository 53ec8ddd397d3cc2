import EdgeAllocator.Completion
import EdgeAllocator.Configuration
import EdgeAllocator.Drain
import EdgeAllocator.Failover
import EdgeAllocator.Leakage
import EdgeAllocator.Failure
import EdgeAllocator.Discipline
import EdgeAllocator.Accounting
import EdgeAllocator.Lifecycle
import EdgeAllocator.Outage
import EdgeAllocator.Recording
import EdgeAllocator.Recorded
import EdgeAllocator.Doubles.Stepwise
import EdgeAllocator.Doubles.Contention
import EdgeAllocator.Doubles.Commitment
import EdgeAllocator.Doubles.Exact
import EdgeAllocator.Foundation.Locking
import EdgeAllocator.Reentry
import EdgeAllocator.Fleets
import EdgeAllocator.Naming
import EdgeAllocator.Tables
import EdgeAllocator.Foundation.Sentinel
import EdgeAllocator.Foundation.Rounding
import EdgeAllocator.Foundation.Double
import EdgeAllocator.Doubles
import EdgeAllocator.Doubles.Specification
import EdgeAllocator.Placement
import EdgeAllocator.Score
import EdgeAllocator.Balance
import EdgeAllocator.Deadline
import EdgeAllocator.Foundation.Cycle
import EdgeAllocator.Rotation
import EdgeAllocator.Retry
import EdgeAllocator.Lifespan
import EdgeAllocator.Verdict
import EdgeAllocator.Schema
import EdgeAllocator.History
import EdgeAllocator.Foundation.Relational
import EdgeAllocator.Foundation.Numeral
import EdgeAllocator.CommandLine
import EdgeAllocator.Initialize
import EdgeAllocator.Entry
import EdgeAllocator.Referential
import EdgeAllocator.Foundation.Percent
import EdgeAllocator.Target
import EdgeAllocator.Foundation.Chunks
import EdgeAllocator.Assembly
import EdgeAllocator.Startup
import EdgeAllocator.Request
import EdgeAllocator.Foundation.Mean
import EdgeAllocator.Imbalance
import EdgeAllocator.Scale
import EdgeAllocator.Identifiers
import EdgeAllocator.Mqtt
import EdgeAllocator.Agreement
import EdgeAllocator.Progress
import EdgeAllocator.Arrival
import EdgeAllocator.Foundation.Slots
import EdgeAllocator.Rounds
import EdgeAllocator.Chronicle
import EdgeAllocator.Journal
import EdgeAllocator.Listing
import EdgeAllocator.Metrics
import EdgeAllocator.Statistics
import EdgeAllocator.Retention
import EdgeAllocator.Presence
import EdgeAllocator.Backlog
import EdgeAllocator.Message
import EdgeAllocator.Dispatch
import EdgeAllocator.Effort
import EdgeAllocator.Foundation.Fairness
import EdgeAllocator.Liveness
import EdgeAllocator.Stopping
import EdgeAllocator.Delivery
import EdgeAllocator.Returning
