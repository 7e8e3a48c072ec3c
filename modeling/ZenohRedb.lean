import ZenohRedb.Lib.Store
import ZenohRedb.Lib.Discipline
import ZenohRedb.Lib.Bytes
import ZenohRedb.Lib.Text
import ZenohRedb.Lib.Wildcards
import ZenohRedb.Lib.PathBuf
import ZenohRedb.Lib.Derive
import ZenohRedb.Lib.Codec
import ZenohRedb.Json
import ZenohRedb.Error
import ZenohRedb.DataInfo
import ZenohRedb.Config
import ZenohRedb.ConfigSerde
import ZenohRedb.ConfigWrite
import ZenohRedb.Wildcard
import ZenohRedb.Storage.Ops
import ZenohRedb.Storage.Tables
import ZenohRedb.Storage.EntryMap
import ZenohRedb.Disk
import ZenohRedb.Lib.Runs
import ZenohRedb.Storage.Atomicity
import ZenohRedb.Storage.Session
import ZenohRedb.Storage.Refinement
import ZenohRedb.Storage.Files
import ZenohRedb.Storage.Matching
import ZenohRedb.Storage.Queries
import ZenohRedb.Storage.WriteBack
import ZenohRedb.Storage.KeyExpr
import ZenohRedb.Storage.KeyBuffer
import ZenohRedb.Storage.Copy
import ZenohRedb.Lib.Linearize
import ZenohRedb.Storage.Concurrent
import ZenohRedb.Lib.Faults
import ZenohRedb.Lib.Progress
import ZenohRedb.Lib.Stages
import ZenohRedb.Storage.Faults
import ZenohRedb.Storage.Lives
import ZenohRedb.Lib.Schedule
import ZenohRedb.Storage.Updates
import ZenohRedb.Backend.Calls
import ZenohRedb.Backend.Clones
import ZenohRedb.Backend.Registry
import ZenohRedb.Backend.Replace
import ZenohRedb.Backend.Locks
import ZenohRedb.Backend.System
import ZenohRedb.Backend.Frames
import ZenohRedb.Backend.Threads
import ZenohRedb.Plugin.NoneKey
import ZenohRedb.Plugin.Clients
import ZenohRedb.Plugin.Enumerate
import ZenohRedb.Plugin.Verbatim
import ZenohRedb.Plugin.ReadOnly
import ZenohRedb.Plugin.Replica
import ZenohRedb.Plugin.Volume
import ZenohRedb.Plugin.System
import ZenohRedb.Plugin.DbPath
import ZenohRedb.Backend.Names
