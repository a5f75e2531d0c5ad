import GumServer.OrderId
import GumServer.Depositor
import GumServer.Returned
import GumServer.Payment
import GumServer.Snapshot
import GumServer.Privy
import GumServer.ApiKeys
import GumServer.Stranded
import GumServer.Submissions
import GumServer.Retries
import GumServer.Covered
import GumServer.Fingerprint
import GumServer.Leases
import GumServer.Reports
import GumServer.Detach
import GumServer.Timeline
import GumServer.Failure
import GumServer.Totals
import GumServer.Notify
import GumServer.Recover
import GumServer.Overdue
import GumServer.Serial
import GumServer.Once
import GumServer.Sign
import GumServer.PublicHost
import GumServer.Listing
import GumServer.Overdraws
import GumServer.Stored
import GumServer.Settleable
import GumServer.Delivered
import GumServer.Sources
import GumServer.Quoting
import GumServer.Backoff
import GumServer.Upstream
import GumServer.Refresh
import GumServer.ChainList
import GumServer.OldestFirst
import GumServer.Reconciler
import GumServer.StaleDeposits
import GumServer.Callbacks
import GumServer.Histories
import GumServer.Lifecycle
