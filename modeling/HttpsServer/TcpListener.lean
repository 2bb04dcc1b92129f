/-!
# HttpsServer.TcpListener

`net::TcpListener`: the listening socket and the `running_` flag.

A call into the operating system that fails is an argument of the operation,
so that `open` describes what each failure leaves behind.
-/

namespace HttpsServer

/-- How far a listening socket has been set up. -/
inductive SocketState where
  | invalid
  | created
  | bound
  | listening
  deriving DecidableEq, Repr

/-- The system call of `TcpListener::open` that fails. -/
inductive OpenFault where
  | socket
  | setsockopt
  | bind
  | listen
  deriving DecidableEq, Repr

/-- The members of a `TcpListener` that change. -/
structure TcpListener where
  socket : SocketState
  running : Bool
  deriving DecidableEq, Repr

namespace TcpListener

/-- The listener after construction. -/
def initial : TcpListener where
  socket := .invalid
  running := false

/-- What `open` leaves behind.  It throws when a system call fails; a failing
`socket` call leaves the old socket in place. -/
def «open» (l : TcpListener) : Option OpenFault → TcpListener
  | some .socket => l
  | some .setsockopt => { l with socket := .created }
  | some .bind => { l with socket := .created }
  | some .listen => { l with socket := .bound }
  | none => { socket := .listening, running := true }

/-- What `start` leaves behind.  It opens a listener that has no socket, and
throws where that throws. -/
def start (l : TcpListener) (fault : Option OpenFault) : TcpListener :=
  if l.socket ≠ .invalid then { l with running := true }
  else
    match fault with
    | some fault => l.open (some fault)
    | none => { l.open none with running := true }

def startThrows (l : TcpListener) (fault : Option OpenFault) : Bool :=
  l.socket == .invalid && fault.isSome

/-- `accept` can hand out a connection: the listener is running, and its
socket is one on which the system accepts. -/
def canAccept (l : TcpListener) : Bool := l.running && l.socket == .listening

/-- `stop` closes the socket. -/
def stop (_ : TcpListener) : TcpListener where
  socket := .invalid
  running := false

end TcpListener

end HttpsServer
