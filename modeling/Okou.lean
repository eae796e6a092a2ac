import Okou.Nbd.FlushTrace
import Okou.Nbd.Snapshot
import Okou.Nbd.Device
import Okou.Nbd.PoolProgress
import Okou.Nbd.Scan
import Okou.Nbd.Netlink
import Okou.Nbd.PoolClaims
import Okou.Firewall.Justified
import Okou.Billing.Admission
import Okou.Billing.Expiry
import Okou.Billing.RefundSafety
import Okou.Rewrite.TrustedQuery
import Okou.Aws.Resign
import Okou.Auth.Ownership
import Okou.Auth.Freshness
import Okou.Connectors.Permissions
import Okou.GuestControl.ExecResult
import Okou.GuestControl.FileStream
import Okou.GuestControl.OperationTracker
import Okou.Runner.ResourceBudget
import Okou.Chat.EventReplay
import Okou.Storage.Archive
import Okou.Usage.Batching
import Okou.Usage.Nesting
import Okou.Chat.Compaction
