import PushSystem.Lib.OrdMap
import PushSystem.Lib.Runs
import PushSystem.Lib.Count
import PushSystem.Lib.Bitmap
import PushSystem.Lib.Redis
import PushSystem.Lib.Prog
import PushSystem.Lib.Wheel
import PushSystem.Lib.Retry
import PushSystem.Lib.Calendar
import PushSystem.Lib.Decimal
import PushSystem.Proto
import PushSystem.Daemon.Tables
import PushSystem.Daemon.System
import PushSystem.Theorems.Daemon.Steps
import PushSystem.Theorems.Daemon.Chunks
import PushSystem.Theorems.Daemon.Tables
import PushSystem.Theorems.Daemon.Live
import PushSystem.Theorems.Daemon.Tasks
import PushSystem.Theorems.Daemon.Sending
import PushSystem.Theorems.Daemon.Removed
import PushSystem.Theorems.Daemon.Partition
import PushSystem.DataHandler
import PushSystem.Handlers
import PushSystem.UserInfoUpdate
import PushSystem.UserInfoCheck
import PushSystem.DaemonClient
import PushSystem.Producer
import PushSystem.Fields
import PushSystem.Audience
import PushSystem.AudienceCache
import PushSystem.TpsReport
import PushSystem.LoadBalance
import PushSystem.CallData
import PushSystem.Theorems.Daemon.Wheel
import PushSystem.Theorems.Daemon.Ranked
import PushSystem.Theorems.Daemon.Sweep
import PushSystem.Theorems.Daemon.Admission
import PushSystem.Theorems.Daemon.Address
import PushSystem.Theorems.DataHandler.Retries
import PushSystem.Theorems.DataHandler.Handles
import PushSystem.Theorems.UserInfoUpdate.Calls
import PushSystem.Theorems.UserInfoUpdate.Windows
import PushSystem.Theorems.UserInfoUpdate.Release
import PushSystem.Theorems.UserInfoUpdate.Faultless
import PushSystem.Theorems.UserInfoUpdate.Complete
import PushSystem.Theorems.UserInfoUpdate.Diff
import PushSystem.Theorems.UserInfoUpdate.Cache
import PushSystem.Theorems.UserInfoUpdate.Released
import PushSystem.Theorems.UserInfoCheck.Daily
import PushSystem.Theorems.DaemonClient.Steps
import PushSystem.Theorems.DaemonClient.Ids
import PushSystem.Theorems.DaemonClient.Entries
import PushSystem.Theorems.DaemonClient.Stale
import PushSystem.Theorems.Producer.Steps
import PushSystem.Theorems.Producer.Replies
import PushSystem.Theorems.Producer.Uids
import PushSystem.Theorems.Producer.TaskCount
import PushSystem.Theorems.Producer.RoundTrip
import PushSystem.Theorems.Producer.Ranges
import PushSystem.Theorems.Producer.Sends
import PushSystem.Theorems.Producer.Released
import PushSystem.Theorems.Producer.Lock
import PushSystem.Theorems.Audience.Real
import PushSystem.Theorems.Audience.Expiry
import PushSystem.Theorems.TpsReport.Counted
import PushSystem.Theorems.Producer.Decodes
import PushSystem.Theorems.Producer.Deleted
import PushSystem.Fleet
import PushSystem.Theorems.Daemon.Calls
import PushSystem.Theorems.Fleet.Steps
import PushSystem.Theorems.Fleet.Links
import PushSystem.Theorems.Audience.Within
import PushSystem.Theorems.Audience.Exact
import PushSystem.Theorems.Fleet.Delivery
import PushSystem.Theorems.Fleet.Once
import PushSystem.Theorems.Fleet.Allowed
import PushSystem.Theorems.Fleet.Exact
import PushSystem.Theorems.LoadBalance.Text
import PushSystem.Theorems.LoadBalance.Reported
import PushSystem.Theorems.Daemon.Work
import PushSystem.Theorems.Daemon.Progress
import PushSystem.Theorems.DaemonClient.Recovery
