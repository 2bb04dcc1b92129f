import HttpsServer.Handles
import HttpsServer.Machine
import HttpsServer.Transport

/-!
# HttpsServer.Tls

The OpenSSL objects behind `tls::TlsContext` and `tls::TlsConnection`, over any
use of the two classes (`tls_context.cpp`, `tls_connection.cpp`).

A `TlsContext` is held by `std::shared_ptr`s: those of its users, which come and
go as the environment likes, and the member `context_` of every
`TlsConnection`.  It is destroyed with the last of them.  What OpenSSL answers is
an argument of the operation; what `read`, `write` and `handshake` do with it is
that of the connection's model (`TlsConnection`).
-/

namespace HttpsServer.Tls

/-- What the constructor of `TlsContext` meets. -/
inductive ContextOutcome where
  /-- `SSL_CTX_new` returns null. -/
  | noContext
  | noCertificate
  | noPrivateKey
  /-- `SSL_CTX_check_private_key` fails. -/
  | mismatch
  | made
  deriving DecidableEq, Repr

/-- The constructor throws after `SSL_CTX_new`. -/
def ContextOutcome.configureThrows : ContextOutcome → Bool
  | noCertificate | noPrivateKey | mismatch => true
  | noContext | made => false

/-- What the constructor of `TlsConnection` meets. -/
inductive SessionOutcome where
  /-- `SSL_new` returns null. -/
  | noSession
  /-- `SSL_set_fd` fails. -/
  | notAttached
  | made
  deriving DecidableEq, Repr

/-- A `TlsContext` object. -/
structure Context where
  /-- `context_`, or `none` where it is null. -/
  handle : Option Nat
  /-- The `std::shared_ptr`s to it outside of `TlsConnection`s. -/
  users : Nat
  deriving DecidableEq

/-- A `TlsConnection` object. -/
structure Session where
  /-- Which object `context_` points to. -/
  context : Nat
  /-- What `SSL_new` returned. -/
  handle : Nat
  tls : TlsConnection
  /-- The destructor has not been executed. -/
  alive : Bool
  deriving DecidableEq

/-- `ssl_` -/
def Session.ssl? (c : Session) : Option Nat := if c.tls.ssl then some c.handle else none

structure State where
  /-- The `SSL_CTX` objects. -/
  sslContexts : Handles := {}
  /-- The `SSL` objects. -/
  ssls : Handles := {}
  contexts : List Context := []
  sessions : List Session := []
  /-- The `SSL_CTX` objects of constructors that threw; no step reads them. -/
  abandoned : List Nat := []
  deriving DecidableEq

inductive Action where
  /-- `std::make_shared<TlsContext>` -/
  | makeContext (outcome : ContextOutcome)
  /-- A user copies its `std::shared_ptr`. -/
  | share (k : Nat)
  /-- A user gives its `std::shared_ptr` up. -/
  | drop (k : Nat)
  /-- A `TlsConnection` is constructed with a context, or with a null pointer. -/
  | makeSession (k : Option Nat) (outcome : SessionOutcome)
  | handshake (c : Nat) (accepted : Bool)
  | read (c : Nat) (size : Nat)
  | write (c : Nat) (data : Bytes)
  | shutdown (c : Nat)
  | close (c : Nat)
  /-- `~TlsConnection` -/
  | destroy (c : Nat)
  deriving DecidableEq

/-- A constructor of `TlsContext` throws after `SSL_CTX_new`. -/
def Action.abandons : Action → Bool
  | makeContext outcome => outcome.configureThrows
  | share _ | drop _ | makeSession _ _ | handshake _ _ | read _ _ | write _ _ | shutdown _ | close _
  | destroy _ => false

/-- The session is one of the owners of context `k`. -/
def Session.owns (k : Nat) (c : Session) : Bool := c.alive && c.context == k

/-- `use_count` -/
def useCount (contexts : List Context) (sessions : List Session) (k : Nat) : Nat :=
  (contexts[k]?.map Context.users).getD 0 + sessions.countP (Session.owns k)

/-- `~TlsContext`, if nobody owns the context any more. -/
def State.collect (s : State) (k : Nat) : State :=
  if useCount s.contexts s.sessions k = 0 then
    match s.contexts[k]? with
    | some { handle := some h, users } =>
      { s with
        sslContexts := s.sslContexts.free h
        contexts := s.contexts.set k { handle := none, users := users } }
    | _ => s
  else s

/-- `SSL_free`, if there is something to free. -/
def State.freeSsl (s : State) (session : Session) : State where
  sslContexts := s.sslContexts
  ssls := match session.ssl? with
    | some h => s.ssls.free h
    | none => s.ssls
  contexts := s.contexts
  sessions := s.sessions
  abandoned := s.abandoned

/-- A call of OpenSSL on the session's `SSL`, where the member function makes
one. -/
def State.callSsl (s : State) (session : Session) (calls : Bool) : State where
  sslContexts := s.sslContexts
  ssls := if calls then s.ssls.touch session.handle else s.ssls
  contexts := s.contexts
  sessions := s.sessions
  abandoned := s.abandoned

def State.makeContext (s : State) : ContextOutcome → State
  | .noContext => s
  | .made =>
    { s with
      sslContexts := s.sslContexts.create.touch s.sslContexts.next
      contexts := s.contexts ++ [{ handle := some s.sslContexts.next, users := 1 }] }
  | .noCertificate | .noPrivateKey | .mismatch =>
    { s with
      sslContexts := s.sslContexts.create.touch s.sslContexts.next
      abandoned := s.sslContexts.next :: s.abandoned }

/-- The constructor of `TlsConnection`, given the context's handle. -/
def State.makeSession (s : State) (k h : Nat) (outcome : SessionOutcome) : State :=
  let s := { s with sslContexts := s.sslContexts.touch h }
  match outcome with
  | .noSession => s
  | .notAttached => { s with ssls := (s.ssls.create.touch s.ssls.next).free s.ssls.next }
  | .made =>
    { s with
      ssls := s.ssls.create.touch s.ssls.next
      sessions := s.sessions ++
        [{ context := k, handle := s.ssls.next, tls := .make, alive := true }] }

/-- A member function is called on a session that has not been destroyed. -/
def State.onSession (s : State) (c : Nat) (f : Session → State) : Option State :=
  match s.sessions[c]? with
  | some session => if session.alive then some (f session) else none
  | none => none

def State.step (s : State) : Action → Option State
  | .makeContext outcome => some (s.makeContext outcome)
  | .share k =>
    match s.contexts[k]? with
    | some ctx =>
      if 0 < ctx.users then
        some { s with contexts := s.contexts.set k { ctx with users := ctx.users + 1 } }
      else none
    | none => none
  | .drop k =>
    match s.contexts[k]? with
    | some ctx =>
      if 0 < ctx.users then
        some (State.collect
          { s with contexts := s.contexts.set k { ctx with users := ctx.users - 1 } } k)
      else none
    | none => none
  | .makeSession none _ => some s
  | .makeSession (some k) outcome =>
    match s.contexts[k]? with
    | some { handle := some h, users } =>
      if 0 < users then some (s.makeSession k h outcome) else none
    | _ => none
  | .handshake c accepted => s.onSession c fun session =>
    { s.callSsl session session.tls.ssl with
      sessions := s.sessions.set c { session with tls := (session.tls.handshake accepted).1 } }
  | .read c size => s.onSession c fun session =>
    s.callSsl session (session.tls.open && session.tls.ssl && decide (size ≠ 0))
  | .write c data => s.onSession c fun session =>
    s.callSsl session (session.tls.open && session.tls.ssl && decide (data ≠ []))
  | .shutdown c => s.onSession c fun session => s.callSsl session session.tls.ssl
  | .close c => s.onSession c fun session =>
    { s.freeSsl session with
      sessions := s.sessions.set c { session with tls := session.tls.close } }
  | .destroy c => s.onSession c fun session =>
    State.collect
      { s.freeSsl session with
        sessions := s.sessions.set c { session with tls := session.tls.close, alive := false } }
      session.context

/-- Any use of the two classes. -/
def machine : Machine State Action where
  init := {}
  step := State.step

end HttpsServer.Tls
