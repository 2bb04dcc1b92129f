import HttpsServer.Connection.Session
import HttpsServer.Server.References
import HttpsServer.Server.Teardown
import HttpsServer.Socket

/-!
# HttpsServer.System

A whole server: the machine of `HttpsServer.Server`, and for each connection it
accepts the machine of `HttpsServer.Connection.Session`.

`handle_connection` constructs a `Connection` from an accepted socket and calls
its `handshake`; the task of a worker calls `run` with the router as the handler.
So the steps that `Server` takes for a connection, and those that a session
leaves open, are one here.  The `shared_ptr`s in the frame of
`handle_connection` and in the task keep the object; once they are gone,
`~Connection` is executed.

A task that comes to a member which `~Server` has destroyed takes no step here:
what it does from then on is not defined.  `HttpsServer.Server.Teardown` says
when that can happen.
-/

namespace HttpsServer.System

open Server (RunEnd)

/-- What a server is built with. -/
structure Setup where
  workers : Nat
  tlsEnabled : Bool
  limits : ParseLimits
  keepAliveTimeoutSeconds : UInt32
  /-- `router_.route(request)`, or `none` where the handler throws. -/
  route : HttpRequest → Option HttpResponse

/-- The `Connection` that `handle_connection` constructs. -/
def Setup.connection (setup : Setup) (fd : Int) : Connection :=
  .make ⟨fd⟩ setup.tlsEnabled setup.limits setup.keepAliveTimeoutSeconds

/-- A `Connection` object. -/
structure Object where
  session : Session.State
  /-- `~Connection` has been executed. -/
  destroyed : Bool := false

structure State where
  server : Server.State
  /-- One object for each accepted connection. -/
  objects : List Object
  /-- What the descriptors of the connections have seen. -/
  descriptors : List Socket.Event

/-- A step of a worker inside `connection->run`. -/
inductive Move where
  | enter
  | loopTest
  | parse
  | receive (answer : RecvAnswer)
  | handle
  | send (answer : SendAnswer)
  | leave

inductive Action where
  /-- A step of the server in which no connection takes part. -/
  | server (a : Server.Action)
  /-- `listener_->accept()` returns a socket, from which `handle_connection`
  constructs a `Connection`. -/
  | accept (fd : Int)
  /-- `connection->handshake()` -/
  | handshake (outcome : HandshakeOutcome)
  /-- Worker `w` takes a step of `connection->run`. -/
  | run (w : Nat) (move : Move)
  /-- The last `shared_ptr` to connection `c` is gone. -/
  | destroy (c : Nat)

/-- The steps of the server that have no part in a `Connection`. -/
def internal : Server.Action → Bool
  | .accept accepted => !accepted
  | .handshake _ | .route _ | .endRun _ _ => false
  | _ => true

/-- The handler is `router_.route`. -/
def Move.action (setup : Setup) (control : Session.Control) : Move → Option Session.Action
  | enter => some .run
  | loopTest => some .loopTest
  | parse => some .parse
  | receive answer => some (.receive answer)
  | handle =>
    match control with
    | .handling request => some (.handle (setup.route request))
    | _ => none
  | send answer => some (.send answer)
  | leave => some .leave

/-- The exception or the return that takes the control out of `run`. -/
def runEnd : Session.Action → RunEnd
  | .parse => .malformedRequest
  | .handle _ => .handlerThrew
  | _ => .returned

/-- The handler calls `router_.route`. -/
def routeCall (w : Nat) : Session.Action → List Server.Action
  | .handle _ => [.route w]
  | _ => []

/-- What the end of `connection->run` is to the server. -/
def runEnded (w : Nat) (a : Session.Action) (session : Session.State) : List Server.Action :=
  match session.control with
  | .outside => [.endRun w (runEnd a)]
  | _ => []

/-- What a step of `connection->run` does to the server. -/
def serverActions (w : Nat) (a : Session.Action) (session : Session.State) : List Server.Action :=
  routeCall w a ++ runEnded w a session

/-- How `handle_connection` takes the result of `connection->handshake()`. -/
def handshakeEnd : Option Bool → Server.Handshake
  | some true => .succeeded
  | some false => .failed
  | none => .threw

/-- The system calls of `close`; `TlsConnection::close` makes none on the
descriptor. -/
def closeCalls (c : Connection) : List Socket.Event := c.socket.closeCalls

/-- The system calls on the descriptor of a connection, by the step it takes. -/
def systemCalls (c : Connection) : Session.Action → List Socket.Event
  | .handshake _ => if c.tlsEnabled && c.tlsContext then c.socket.memberCalls else []
  | .receive _ | .send _ => c.socket.memberCalls
  | .close | .leave => closeCalls c
  | .run | .loopTest | .parse | .handle _ => []

namespace State

variable (s : State)

/-- The descriptor of some connection. -/
def owns (fd : Int) : Bool := s.objects.any fun o => o.session.connection.socket == { handle := fd }

/-- Connection `c` takes a step. -/
def advance (c : Nat) (o : Object) (a : Session.Action) (session : Session.State)
    (server : Server.State) : State where
  server := server
  objects := s.objects.set c { o with session := session }
  descriptors := s.descriptors ++ systemCalls o.session.connection a

/-- A `Connection` is constructed.  The system does not open a descriptor that
is open. -/
def accept (setup : Setup) (fd : Int) : Option State :=
  if fd = Socket.invalidHandle || s.owns fd then none
  else
    (s.server.step (.accept true)).map fun server =>
      { server := server
        objects := s.objects ++ [{ session := { connection := setup.connection fd } }]
        descriptors := s.descriptors ++ [.acquired fd] }

def handshake (outcome : HandshakeOutcome) : Option State :=
  match s.server.owner with
  | .handshaking c => do
    let o ← s.objects[c]?
    let session ← o.session.step (.handshake outcome)
    let server ← s.server.step (.handshake (handshakeEnd (o.session.connection.handshake outcome).2))
    some (s.advance c o (.handshake outcome) session server)
  | _ => none

/-- Worker `w` is inside `connection->run` as long as its connection has the
phase `pooled`.  The handler needs the router. -/
def run (setup : Setup) (w : Nat) (move : Move) : Option State := do
  let c ← s.server.serving w
  if s.server.connections[c]? = some .pooled then
    let o ← s.objects[c]?
    let a ← move.action setup o.session.control
    if (routeCall w a).any s.server.usesDestroyed then none
    else
      let session ← o.session.step a
      let server ← (Server.machine setup.workers).run s.server (serverActions w a session)
      some (s.advance c o a session server)
  else none

/-- `~Connection` -/
def destroy (c : Nat) : Option State :=
  if s.server.references c then none
  else
    (s.objects[c]?).bind fun o =>
      if o.destroyed then none
      else
        some { s with
          objects := s.objects.set c
            { session := { o.session with connection := o.session.connection.close }
              destroyed := true }
          descriptors := s.descriptors ++ closeCalls o.session.connection }

def step (setup : Setup) : Action → Option State
  | .server a =>
    if internal a && !s.server.usesDestroyed a then
      (s.server.step a).map fun server => { s with server := server }
    else none
  | .accept fd => s.accept setup fd
  | .handshake outcome => s.handshake outcome
  | .run w move => s.run setup w move
  | .destroy c => s.destroy c

end State

def machine (setup : Setup) : Machine State Action where
  init := { server := .initial setup.workers, objects := [], descriptors := [] }
  step s := s.step setup

/-! ## What a step can do -/

/-- The steps of the system. -/
inductive Step (setup : Setup) (s : State) : Action → State → Prop
  | server {a : Server.Action} {server : Server.State} : internal a = true →
      s.server.step a = some server → s.server.usesDestroyed a = false →
      Step setup s (.server a) { s with server := server }
  | accepted {fd : Int} {server : Server.State} : fd ≠ Socket.invalidHandle → s.owns fd = false →
      s.server.step (.accept true) = some server →
      Step setup s (.accept fd)
        { server := server
          objects := s.objects ++ [{ session := { connection := setup.connection fd } }]
          descriptors := s.descriptors ++ [.acquired fd] }
  | handshaken {outcome : HandshakeOutcome} {c : Nat} {o : Object} {session : Session.State}
      {server : Server.State} : s.server.owner = .handshaking c → s.objects[c]? = some o →
      o.session.step (.handshake outcome) = some session →
      s.server.step (.handshake (handshakeEnd (o.session.connection.handshake outcome).2)) =
        some server →
      Step setup s (.handshake outcome) (s.advance c o (.handshake outcome) session server)
  | ran {w c : Nat} {move : Move} {o : Object} {a : Session.Action} {session : Session.State}
      {server : Server.State} : s.server.serving w = some c →
      s.server.connections[c]? = some .pooled → s.objects[c]? = some o →
      move.action setup o.session.control = some a → o.session.step a = some session →
      (Server.machine setup.workers).run s.server (serverActions w a session) = some server →
      (routeCall w a).any s.server.usesDestroyed = false →
      Step setup s (.run w move) (s.advance c o a session server)
  | destroyed {c : Nat} {o : Object} : s.server.references c = false → s.objects[c]? = some o →
      o.destroyed = false →
      Step setup s (.destroy c)
        { s with
          objects := s.objects.set c
            { session := { o.session with connection := o.session.connection.close }
              destroyed := true }
          descriptors := s.descriptors ++ closeCalls o.session.connection }

/-- **Inversion**: a step is one of the things that can happen. -/
theorem Step.of_step {setup : Setup} {s t : State} {a : Action} (h : s.step setup a = some t) :
    Step setup s a t := by
  cases a with
  | server a =>
      simp only [State.step, Bool.and_eq_true, Bool.not_eq_true', Option.ite_none_right_eq_some,
        Option.map_eq_some_iff] at h
      obtain ⟨⟨ha, hlive⟩, server, hserver, rfl⟩ := h
      exact .server ha hserver hlive
  | accept fd =>
      simp only [State.step, State.accept, Bool.or_eq_true, decide_eq_true_eq,
        Option.ite_none_left_eq_some, not_or, Option.map_eq_some_iff] at h
      obtain ⟨⟨hfd, howns⟩, server, hserver, rfl⟩ := h
      exact .accepted hfd (Bool.eq_false_iff.2 howns) hserver
  | handshake outcome =>
      simp only [State.step, State.handshake] at h
      split at h
      · next howner =>
          simp only [Option.bind_eq_bind, Option.bind_eq_some_iff, Option.some.injEq] at h
          obtain ⟨o, ho, session, hsession, server, hserver, rfl⟩ := h
          exact .handshaken howner ho hsession hserver
      · cases h
  | run w move =>
      simp only [State.step, State.run, Option.bind_eq_bind, Option.bind_eq_some_iff,
        Option.ite_none_right_eq_some, Option.ite_none_left_eq_some, Option.some.injEq] at h
      obtain
        ⟨c, hserving, hpooled, o, ho, a, ha, hlive, session, hsession, server, hserver, rfl⟩ := h
      exact .ran hserving hpooled ho ha hsession hserver (Bool.eq_false_iff.2 hlive)
  | destroy c =>
      simp only [State.step, State.destroy, Option.ite_none_left_eq_some,
        Option.bind_eq_some_iff, Option.some.injEq] at h
      obtain ⟨hreferences, o, ho, hlive, rfl⟩ := h
      exact .destroyed (Bool.eq_false_iff.2 hreferences) ho (Bool.eq_false_iff.2 hlive)

/-! ## A run -/

/-- A server with TLS that says `hi` to every request. -/
def greeter : Setup where
  workers := 1
  tlsEnabled := true
  limits := {}
  keepAliveTimeoutSeconds := 0
  route := fun _ => some (.ok (ascii "hi"))

/-- A connection is accepted, and worker 0 takes its task. -/
def takenRun : List Action :=
  [.server .run, .server (.openListener none), .server .loopTest, .accept 3, .handshake .accepted,
    .server .submit, .server (.notifyOne none), .server (.lock 0)]

/-- The worker serves one request. -/
def greetedRun : List Action :=
  takenRun ++
    [.run 0 .enter, .run 0 .loopTest, .run 0 .parse,
      .run 0 (.receive (.data (ascii "GET / HTTP/1.1\r\n\r\n"))), .run 0 .parse, .run 0 .handle,
      .run 0 (.send (.taken 1000)), .run 0 .leave]

/-- One connection, with one exchange. -/
theorem exists_greeted :
    ∃ s o, (machine greeter).run (machine greeter).init greetedRun = some s ∧
      s.objects[(0 : Nat)]? = some o ∧ (Session.exchanges o.session.log).length = 1 := by
  obtain ⟨s, hs, hlength⟩ := Option.map_eq_some_iff.1 (show
    ((machine greeter).run (machine greeter).init greetedRun).map
      (fun s => s.objects.map fun o => (Session.exchanges o.session.log).length) = some [1] by
        decide +kernel)
  obtain ⟨o, ho, hone⟩ := List.map_eq_singleton_iff.1 hlength
  exact ⟨s, o, hs, by rw [ho]; rfl, hone⟩

end HttpsServer.System
