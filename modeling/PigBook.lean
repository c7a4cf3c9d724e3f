import PigBook.Inventory.Holds
import PigBook.Inventory.Admission
import PigBook.Inventory.Inactive
import PigBook.ReadCommitted.Keyset
import PigBook.Users.LastAdmin
import PigBook.Users.Refresh
import PigBook.Users.Versions
import PigBook.Users.Retention
import PigBook.Client.Refresh
import PigBook.Client.Attempts
import PigBook.Client.Request
import PigBook.Windows.Overflow
import PigBook.Windows.Agreement
import PigBook.Windows.Availability
import PigBook.RateLimits.Limits
import PigBook.Invitations.SingleUse
import PigBook.LockOrder.Acyclic
import PigBook.OwnScope.Noninterference
import PigBook.OwnScope.IfMatch
import PigBook.Scheduler.RunCycle
import PigBook.Idempotency.Canonical
import PigBook.Delivery.Sanitize
import PigBook.Client.NewYork
import PigBook.Observability.Logging
import PigBook.Verification.Fingerprint
import PigBook.Delivery.Sends
import PigBook.Client.Recovery
import PigBook.Idempotency.Replays
import PigBook.Users.Mutations
import PigBook.Users.Revocations
