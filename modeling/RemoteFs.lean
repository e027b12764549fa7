import RemoteFs.Lib.Run
import RemoteFs.Lib.Channel
import RemoteFs.Lib.Session
import RemoteFs.Lib.Language
import RemoteFs.Lib.WaitFor
import RemoteFs.Lib.Sorter
import RemoteFs.Rpc.Types
import RemoteFs.Server.State
import RemoteFs.Server.Handlers
import RemoteFs.Server.Operations
import RemoteFs.Server.LockTable
import RemoteFs.Server.History
import RemoteFs.Lock.Ownership
import RemoteFs.Server.FileSystem
import RemoteFs.Lock.Mutex
import RemoteFs.Lock.Isolation
import RemoteFs.Lock.Stale
import RemoteFs.Lock.Atomicity
import RemoteFs.Lock.Keys
import RemoteFs.Rpc.Stub
import RemoteFs.Rpc.Transparency
import RemoteFs.Server.Confinement
import RemoteFs.Client.StrReplace
import RemoteFs.Client.Rewriting
import RemoteFs.Server.Main
import RemoteFs.Client.Api
import RemoteFs.Client.RoundTrip
import RemoteFs.Client.Retry
import RemoteFs.Rpc.Decoding
import RemoteFs.Client.Directories
import RemoteFs.Client.Calls
import RemoteFs.Client.Errors
import RemoteFs.Server.Totality
import RemoteFs.Dir.Step
import RemoteFs.Dir.LifeCycle
import RemoteFs.Client.Names
import RemoteFs.Dir.Listing
import RemoteFs.Datagram.Stub
import RemoteFs.Datagram.Codec
import RemoteFs.Datagram.Transparency
import RemoteFs.Datagram.Decoder
import RemoteFs.Datagram.Bounds
import RemoteFs.Client.Reading
import RemoteFs.Lock.Binding
import RemoteFs.Dir.EndOfStream
import RemoteFs.Lock.CloseDir
import RemoteFs.Client.OpenDir
import RemoteFs.Client.MountPoint
import RemoteFs.Client.Parents
import RemoteFs.Lock.Spelling
import RemoteFs.Client.Mounting
import RemoteFs.Datagram.Unknown
import RemoteFs.Server.ResourceList
import RemoteFs.Client.Termination
import RemoteFs.Datagram.Signature
import RemoteFs.Datagram.Replies
import RemoteFs.Datagram.Network
import RemoteFs.Datagram.Delivery
import RemoteFs.Rpc.Launch
import RemoteFs.Server.Program
import RemoteFs.Lock.Waiting
import RemoteFs.Lock.Progress
import RemoteFs.Lock.Exclusive
import RemoteFs.Server.InMemory
import RemoteFs.Lock.Starvation
import RemoteFs.Rpc.SampleServer
import RemoteFs.Rpc.SampleClient
import RemoteFs.Datagram.Sample
import RemoteFs.Lock.Loops
import RemoteFs.Client.Program
import RemoteFs.Client.Alone
import RemoteFs.Client.OneRun
import RemoteFs.Client.Runs
