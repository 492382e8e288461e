import Inks.Library.Run
import Inks.Library.Table
import Inks.Library.Pool
import Inks.Library.Split
import Inks.Library.Directory
import Inks.Library.Framing
import Inks.Library.OrderStatistic
import Inks.Library.Binary64
import Inks.Library.Recency
import Inks.Library.Simulation
import Inks.Library.Station
import Inks.Library.Printing
import Inks.Library.Inclusion
import Inks.Library.EventLoop
import Inks.Library.Pipe
import Inks.Foundation.Bytes
import Inks.Foundation.PathNormalize
import Inks.Foundation.CanonicalPath
import Inks.Foundation.Backoff
import Inks.Foundation.BackoffDelays
import Inks.Foundation.BackoffEquality
import Inks.Foundation.Retry
import Inks.Foundation.Lru
import Inks.Foundation.LruRefinement
import Inks.Foundation.LruInclusion
import Inks.Foundation.Sprintf
import Inks.Foundation.Deleter
import Inks.Process.Handler
import Inks.Process.Manager
import Inks.Process.Output
import Inks.Process.Lines
import Inks.Process.Pipes
import Inks.Process.Killer
import Inks.Process.Escalation
import Inks.Process.Suspension
import Inks.Aps.Job
import Inks.Aps.P90Estimator
import Inks.Aps.Scheduler
import Inks.Aps.Steps
import Inks.Aps.Interleaving
import Inks.Aps.Entries
import Inks.Aps.Capacity
import Inks.Aps.Reservation
import Inks.Aps.Station
import Inks.Aps.Linearization
import Inks.Aps.Conservation
import Inks.Process.LiveTable
import Inks.Process.Waiting
import Inks.Aps.Reporting
import Inks.Aps.Notification
import Inks.Aps.Timers
import Inks.Aps.Processes
import Inks.Aps.Handlers
import Inks.Aps.Results
import Inks.Aps.Percentile
import Inks.Aps.Timeouts
import Inks.Httpd.Helper
import Inks.Httpd.Router
import Inks.Httpd.Echo
import Inks.Httpd.Escapes
import Inks.Httpd.Rejection
import Inks.Httpd.Selection
import Inks.Httpd.RouteUpdate
import Inks.Httpd.Spelling
import Inks.Httpd.Decoding
import Inks.Httpd.Targets
import Inks.Httpd.PathDecoding
import Inks.Httpd.QueryDecoding
import Inks.Httpd.Normalization
import Inks.Httpd.Containment
import Inks.Httpd.Connection
import Inks.Httpd.Pipelining
import Inks.Server.Initializer
import Inks.Server.HandlerConfig
import Inks.Server.EchoServer
import Inks.Server.Service
import Inks.Server.Refinement
import Inks.Server.Protocol
import Inks.Curl.Client
import Inks.Curl.Sends
import Inks.Aps.Restarts
import Inks.Process.Stdin
import Inks.Server.Startup
