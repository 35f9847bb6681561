import Ice.Lib.Transition
import Ice.Lib.Place
import Ice.Error
import Ice.Handle
import Ice.Net.Buffer
import Ice.Net.Endpoint
import Ice.Net.Socket
import Ice.Net.Tcp.WindowsSend
import Ice.Net.Tcp.Operations
import Ice.Net.Ssh.Channel
import Ice.Http.Scan
import Ice.Http.Handler
import Ice.Context.Backend
import Ice.Context.Run
import Ice.Context.Schedule
import Ice.Context.Stop
import Ice.Net.Udp.Operations
import Ice.Net.Ssh.Transport
import Ice.Event.Operation
import Ice.Event.Threads
import Ice.Event.Machine
import Ice.Event.Exclusive
import Ice.Event.Continuation
import Ice.Event.Duplex
import Ice.Event.Multiplex
import Ice.Http.Lifetime
import Ice.Net.EndpointText
import Ice.Net.Tcp.WindowsOperations
import Ice.Net.Udp.WindowsOperations
import Ice.Event.Awaitable
import Ice.Net.Ssh.WindowsTransport
import Ice.Event.Lifecycle
import Ice.Event.Delivery
import Ice.Event.Accepting
import Ice.Event.Completion
import Ice.Event.Closing
import Ice.Lib.Native
import Ice.Net.Option
import Ice.Net.SocketOptions
import Ice.Error.Code
import Ice.Error.Message
import Ice.Event.Datagrams
import Ice.Event.Receiving
import Ice.Descriptors
import Ice.Context.Current
import Ice.Context.Nested
import Ice.Async.Mutex
import Ice.Lib.Line
import Ice.Lib.Linked
import Ice.Lib.Simulation
import Ice.Async.MutexLine
import Ice.Async.MutexRun
import Ice.Lib.Handover
import Ice.Async.Generator
import Ice.Async.GeneratorPaced
import Ice.Async.GeneratorHandover
import Ice.Async.GeneratorRun
import Ice.Async.Coroutines
import Ice.Async.CoroutinesKept
import Ice.Async.CoroutinesRun
import Ice.Event.Filters
import Ice.Event.FiltersPlaces
import Ice.Event.FiltersRun
import Ice.Async.MutexClient
import Ice.Http.Connection
import Ice.Http.ConnectionRun
import Ice.Http.ConnectionEnd
