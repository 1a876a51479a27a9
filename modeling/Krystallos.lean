import Krystallos.Backends.Confined
import Krystallos.Backends.Routes
import Krystallos.Cache.Cost
import Krystallos.Cache.Counters
import Krystallos.Cache.FailedWrite
import Krystallos.Cache.Narrow
import Krystallos.Cache.PastEnd
import Krystallos.Cache.PlainFile
import Krystallos.Cache.ReadAhead
import Krystallos.Cache.Scan
import Krystallos.Cache.Sequential
import Krystallos.Cache.Stale
import Krystallos.Cache.System
import Krystallos.Cache.Transparent
import Krystallos.Cache.Window
import Krystallos.Cli.Commands
import Krystallos.Cli.Download
import Krystallos.Cli.Ends
import Krystallos.Cli.Format
import Krystallos.Cli.Listing
import Krystallos.Cli.Main
import Krystallos.Cli.Register
import Krystallos.Cli.RoundTrip
import Krystallos.Cli.Upload
import Krystallos.Core.Backend
import Krystallos.Core.Drivers
import Krystallos.Core.Error
import Krystallos.Core.Handle
import Krystallos.Core.Hosted
import Krystallos.Core.Path
import Krystallos.Core.PathNormal
import Krystallos.Core.PathParts
import Krystallos.Core.PlainFile
import Krystallos.Core.Registry
import Krystallos.Core.Stays
import Krystallos.Core.Zoomed
import Krystallos.Ffi.Connect
import Krystallos.Ffi.Disconnect
import Krystallos.Ffi.Ends
import Krystallos.Ffi.Filling
import Krystallos.Ffi.Length
import Krystallos.Ffi.PlainFile
import Krystallos.Ffi.RemoteFile
import Krystallos.Ffi.Session
import Krystallos.Ffi.Timestamps
import Krystallos.Lib.Assoc
import Krystallos.Lib.Checked
import Krystallos.Lib.Contract
import Krystallos.Lib.Credit
import Krystallos.Lib.Escape
import Krystallos.Lib.Linear
import Krystallos.Lib.Lts
import Krystallos.Lib.Pending
import Krystallos.Lib.Prog
import Krystallos.Lib.Resource
import Krystallos.Lib.Slice
import Krystallos.Lib.Split
import Krystallos.Local.Backend
import Krystallos.Local.Copy
import Krystallos.Local.Driver
import Krystallos.Local.Files
import Krystallos.Local.Hosted
import Krystallos.Local.Listing
import Krystallos.Local.PlainFile
import Krystallos.Local.Resolve
import Krystallos.Smb.Actor
import Krystallos.Smb.Answers
import Krystallos.Smb.Backend
import Krystallos.Smb.CachedLength
import Krystallos.Smb.Calls
import Krystallos.Smb.Classify
import Krystallos.Smb.Cleanup
import Krystallos.Smb.Closing
import Krystallos.Smb.Commands
import Krystallos.Smb.Connect
import Krystallos.Smb.Copy
import Krystallos.Smb.Credits
import Krystallos.Smb.Endpoints
import Krystallos.Smb.Error
import Krystallos.Smb.Faithful
import Krystallos.Smb.Fallback
import Krystallos.Smb.Handles
import Krystallos.Smb.Hosted
import Krystallos.Smb.Idle
import Krystallos.Smb.Labels
import Krystallos.Smb.Libsmb2
import Krystallos.Smb.Lifecycle
import Krystallos.Smb.Linear
import Krystallos.Smb.MemServer
import Krystallos.Smb.Names
import Krystallos.Smb.Negotiation
import Krystallos.Smb.Orphan
import Krystallos.Smb.Overflow
import Krystallos.Smb.Paths
import Krystallos.Smb.PlainFile
import Krystallos.Smb.Progress
import Krystallos.Smb.RemoteFile
import Krystallos.Smb.Session
import Krystallos.Smb.Share
import Krystallos.Smb.Shutdown
import Krystallos.Smb.Stays
import Krystallos.Smb.Table
import Krystallos.Smb.Unwinding
