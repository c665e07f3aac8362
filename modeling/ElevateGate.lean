import ElevateGate.Interaction.Database
import ElevateGate.Interaction.Program
import ElevateGate.Interaction.System
import ElevateGate.Interaction.Recording
import ElevateGate.Interaction.Sequential
import ElevateGate.Encoding.Base64
import ElevateGate.Encoding.Calendar
import ElevateGate.Encoding.Decimal
import ElevateGate.Encoding.JsonObject
import ElevateGate.Encoding.LengthPrefix
import ElevateGate.Encoding.Segments
import ElevateGate.Encoding.Sha256
import ElevateGate.Platform.Errors
import ElevateGate.Platform.Time
import ElevateGate.Platform.Json
import ElevateGate.Platform.Text
import ElevateGate.Platform.Uuid
import ElevateGate.Ordering.Padding
import ElevateGate.Platform.Version
import ElevateGate.Agent.Models
import ElevateGate.Agent.Machine
import ElevateGate.Agent.Paths
import ElevateGate.Approval.Payload
import ElevateGate.Agent.Execution
import ElevateGate.Agent.Grammar
import ElevateGate.Agent.Service
import ElevateGate.Agent.Effects
import ElevateGate.Agent.Operations
import ElevateGate.Agent.Evidence
import ElevateGate.Agent.Ledger
import ElevateGate.Agent.Submission
import ElevateGate.Agent.Provenance
import ElevateGate.Agent.Tracking
import ElevateGate.Agent.Validation
import ElevateGate.Agent.Accounting
import ElevateGate.Agent.Enrollment
import ElevateGate.Agent.Credentials
import ElevateGate.Agent.Watermarks
import ElevateGate.Agent.Cycles
import ElevateGate.Agent.Loops
import ElevateGate.Agent.Outcomes
import ElevateGate.Agent.Recovery
import ElevateGate.Agent.Restarts
import ElevateGate.Agent.SelfUpdate
import ElevateGate.Agent.Statuses
import ElevateGate.Agent.Swaps
import ElevateGate.Agent.Updates
import ElevateGate.Backend.Models
import ElevateGate.Backend.Session
import ElevateGate.Backend.Repositories
import ElevateGate.Backend.Endpoints
import ElevateGate.Backend.Machine
import ElevateGate.Backend.Invariant
import ElevateGate.Backend.Steps
import ElevateGate.Backend.Rules
import ElevateGate.Backend.Approvals
import ElevateGate.Backend.Consistency
import ElevateGate.Backend.Transactions
import ElevateGate.Backend.Serial
import ElevateGate.Backend.Submissions
import ElevateGate.Backend.Directory
import ElevateGate.Backend.Allowlist
import ElevateGate.Backend.Audit
import ElevateGate.Backend.Enrollment
import ElevateGate.Backend.Registry
import ElevateGate.Backend.OncePerDevice
import ElevateGate.Backend.Credentials
import ElevateGate.Backend.Deadlines
import ElevateGate.Backend.Heartbeats
import ElevateGate.Backend.DeviceRows
import ElevateGate.Ordering.Pages
import ElevateGate.Backend.Paging
import ElevateGate.Backend.Responses
import ElevateGate.Backend.Races
import ElevateGate.Backend.Truth
import ElevateGate.Backend.Justification
import ElevateGate.Backend.Polls
import ElevateGate.Backend.UpdateRequests
import ElevateGate.Approval.Authority
import ElevateGate.Approval.Launches
import ElevateGate.Approval.Wire
import ElevateGate.Approval.Lookup
import ElevateGate.Approval.Absorption
import ElevateGate.Approval.Coherence
import ElevateGate.Approval.Acceptance
import ElevateGate.Approval.Agreement
import ElevateGate.Approval.Channel
import ElevateGate.Approval.Delivery
import ElevateGate.Approval.Inert
import ElevateGate.Approval.Swaps
import ElevateGate.Dashboard.PendingRequests
import ElevateGate.Dashboard.Highlights
import ElevateGate.Dashboard.Toasts
import ElevateGate.Tray.RequestForm
import ElevateGate.Tray.Announcements
import ElevateGate.Tray.Polling
import ElevateGate.Tray.Restarts
