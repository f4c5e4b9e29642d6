import ServiceCall.Conn.Resolver
import ServiceCall.Conn.Stream
import ServiceCall.Rehearsal.Performance
import ServiceCall.Proofs.Call.Decisions
import ServiceCall.Proofs.Call.Rounds
import ServiceCall.Proofs.Call.Sequence
import ServiceCall.Proofs.Call.Deadline
import ServiceCall.Proofs.Concurrent.Steps
import ServiceCall.Proofs.Concurrent.Waiting
import ServiceCall.Proofs.Concurrent.Throttling
import ServiceCall.Proofs.Concurrent.Rehearsing
import ServiceCall.Proofs.Concurrent.Crowds
import ServiceCall.Proofs.Call.Budget
import ServiceCall.Proofs.Call.Tightening
import ServiceCall.Proofs.Conn.IdleCount
import ServiceCall.Proofs.Pool.Limiter
import ServiceCall.Proofs.Pool.Cap
import ServiceCall.Proofs.Pool.Prompt
import ServiceCall.Proofs.Call.CoolingDown
import ServiceCall.Proofs.Pool.Ledger
import ServiceCall.Proofs.Concurrent.Accounts
import ServiceCall.Proofs.Client.Targets
import ServiceCall.Proofs.Conn.Starving
import ServiceCall.Proofs.Call.Settling
import ServiceCall.Proofs.Text.Hexadecimal
import ServiceCall.Proofs.Trace.Written
import ServiceCall.Proofs.Concurrent.Overlapping
import ServiceCall.Proofs.Json.Cursors
import ServiceCall.Proofs.Json.Numbers
import ServiceCall.Proofs.Json.Sorted
import ServiceCall.Proofs.Json.Strings
import ServiceCall.Proofs.Json.Values
import ServiceCall.Proofs.Call.Echoes
import ServiceCall.Proofs.Conn.Chronicle
import ServiceCall.Proofs.Conn.Timeline
import ServiceCall.Proofs.Conn.LateReleases
import ServiceCall.Proofs.Conn.Origins
import ServiceCall.Proofs.Call.Outcomes
import ServiceCall.Proofs.Conn.Contributions
import ServiceCall.Proofs.Conn.Phases
import ServiceCall.Proofs.Number.Whole
import ServiceCall.Proofs.Pool.Peaks
import ServiceCall.Proofs.Retry.Delays
import ServiceCall.Proofs.Retry.Waits
import ServiceCall.Proofs.Time.Calendar
import ServiceCall.Proofs.Time.WrittenDates
import ServiceCall.Proofs.Retry.Dates
import ServiceCall.Proofs.Call.Checks
import ServiceCall.Proofs.Call.Drafts
import ServiceCall.Proofs.Call.Expansion
import ServiceCall.Proofs.Call.GivenValues
import ServiceCall.Proofs.Call.Merging
import ServiceCall.Proofs.Call.Reordering
import ServiceCall.Proofs.Call.Sending
import ServiceCall.Proofs.Rehearsal.Receiving
import ServiceCall.Proofs.Client.Building
import ServiceCall.Proofs.Call.Events
import ServiceCall.Proofs.Client.Prefixes
import ServiceCall.Proofs.Conn.Transfers
import ServiceCall.Proofs.Pool.Forgetting
import ServiceCall.Proofs.Pool.Limits
import ServiceCall.Proofs.Http.Closing
import ServiceCall.Proofs.Text.Letters
import ServiceCall.Proofs.Conn.Overriding
