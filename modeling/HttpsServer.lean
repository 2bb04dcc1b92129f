import HttpsServer.Search
import HttpsServer.Framer
import HttpsServer.Machine
import HttpsServer.History
import HttpsServer.Slots
import HttpsServer.Handles
import HttpsServer.Growable
import HttpsServer.Code
import HttpsServer.Bytes
import HttpsServer.Request
import HttpsServer.Request.HeaderMap
import HttpsServer.Request.KeepAlive
import HttpsServer.Parser
import HttpsServer.Parser.Lines
import HttpsServer.Parser.Verdict
import HttpsServer.Parser.Message
import HttpsServer.Parser.Framing
import HttpsServer.Parser.Extension
import HttpsServer.Parser.Decoding
import HttpsServer.Parser.Bounds
import HttpsServer.Parser.LineLimit
import HttpsServer.Parser.Fields
import HttpsServer.Parser.Slices
import HttpsServer.Parser.Pipeline
import HttpsServer.Response
import HttpsServer.Response.Head
import HttpsServer.Response.Length
import HttpsServer.Response.Roundtrip
import HttpsServer.Router
import HttpsServer.Router.Decision
import HttpsServer.Router.Atomicity
import HttpsServer.Transport
import HttpsServer.Tls
import HttpsServer.Tls.Lifetime
import HttpsServer.Tls.OneContext
import HttpsServer.Connection
import HttpsServer.Connection.Chunking
import HttpsServer.Connection.Operations
import HttpsServer.Connection.Session
import HttpsServer.Connection.Buffer
import HttpsServer.Connection.Conversation
import HttpsServer.Connection.Containment
import HttpsServer.Connection.Ending
import HttpsServer.Connection.Persistence
import HttpsServer.Connection.Stream
import HttpsServer.Connection.Confidentiality
import HttpsServer.ThreadPool
import HttpsServer.ThreadPool.Fifo
import HttpsServer.ThreadPool.Drain
import HttpsServer.ThreadPool.WakeUp
import HttpsServer.ThreadPool.Quiescence
import HttpsServer.TcpListener
import HttpsServer.TcpListener.Consistency
import HttpsServer.Socket
import HttpsServer.Socket.Ownership
import HttpsServer.Handlers
import HttpsServer.Handlers.Form
import HttpsServer.Handlers.Markup
import HttpsServer.Handlers.Page
import HttpsServer.Handlers.Site
import HttpsServer.Config
import HttpsServer.Config.Lines
import HttpsServer.Config.Reading
import HttpsServer.Config.Keys
import HttpsServer.Config.Failure
import HttpsServer.Config.Uses
import HttpsServer.Config.Integers
import HttpsServer.ServerConfig
import HttpsServer.Logger
import HttpsServer.Logger.Writes
import HttpsServer.Logger.Lines
import HttpsServer.Server
import HttpsServer.Server.Accounting
import HttpsServer.Server.Jobs
import HttpsServer.Server.Teardown
import HttpsServer.Server.Limit
import HttpsServer.Server.References
import HttpsServer.Server.Placement
import HttpsServer.Server.Work
import HttpsServer.Server.Completion
import HttpsServer.Server.Lifecycle
import HttpsServer.System
import HttpsServer.System.Projection
import HttpsServer.System.Service
import HttpsServer.System.Descriptors
import HttpsServer.System.Work
import HttpsServer.System.Completion
import HttpsServer.System.Delivery
import HttpsServer.System.Tls
