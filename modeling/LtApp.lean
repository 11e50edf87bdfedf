import LtApp.Mysql.Conservation
import LtApp.Mysql.Stranded
import LtApp.Mysql.Exclusive
import LtApp.Mysql.Transparent
import LtApp.Mysql.CurrentDb
import LtApp.Mysql.Closed
import LtApp.Mysql.Closing
import LtApp.Mysql.Reconnect
import LtApp.Mysql.Fatal
import LtApp.Mysql.ResultCode
import LtApp.Mysql.Armed
import LtApp.Mysql.Callback
import LtApp.Shell.Startup
import LtApp.Shell.Notify
import LtApp.Etcd.PrefixRange
import LtApp.Shell.Shutdown
import LtApp.Etcd.CallContext
import LtApp.Etcd.Discipline
import LtApp.Etcd.Await
import LtApp.Etcd.Watch
import LtApp.Etcd.Resume
import LtApp.Etcd.Reads
import LtApp.Base.Lanes
import LtApp.Etcd.Delivery
import LtApp.Etcd.Order
import LtApp.Etcd.Stopped
import LtApp.Etcd.Side
import LtApp.Etcd.Owner
import LtApp.Mysql.Reentrant
import LtApp.Mysql.Pool
import LtApp.Etcd.Opening
import LtApp.Etcd.Cancelled
import LtApp.Etcd.Verdict
import LtApp.Base.Custody
import LtApp.Mysql.Custody
import LtApp.Mysql.Lossless
import LtApp.Mysql.SkipSelect
import LtApp.Mysql.Submits
import LtApp.Mysql.Terminates
import LtApp.Base.Residues
import LtApp.Mysql.Rotation
import LtApp.Etcd.Winddown
import LtApp.Shell.Accounting
import LtApp.Etcd.Restart
import LtApp.Etcd.Rendezvous
import LtApp.Etcd.Rpc
import LtApp.Etcd.Lifetime
import LtApp.Etcd.Grain
import LtApp.Base.Borrow
import LtApp.Mysql.Client
import LtApp.Mysql.Dispatch
import LtApp.Mysql.Teardown
import LtApp.AsyncQueries.Machine
import LtApp.Base.Crew
import LtApp.AsyncQueries.Program
import LtApp.AsyncQueries.Shared
import LtApp.AsyncQueries.Ending
import LtApp.AsyncQueries.Handling
import LtApp.Mysql.Orphan
import LtApp.Base.Wheel
import LtApp.Sampler.RawSampleManager
import LtApp.Shell.Config
import LtApp.Etcd.Release
import LtApp.Etcd.Standstill
import LtApp.Etcd.Abandon
import LtApp.Etcd.Orderly
