import HttpsServer.TcpListener
import HttpsServer.ThreadPool

/-!
# HttpsServer.Server

`server::Server` as a machine: the thread that owns the server, the threads
that call `stop`, and the workers that run its connection tasks.

The owner calls `run`, which accepts a socket at a time and takes it through
`handle_connection`, and later destroys the server.  Each statement that reads
or writes shared state is a step of its own.  A connection has a `Phase` that
says how far its handling has come; the pool's tasks are the indices of the
connections they serve.

`Connection::run` appears here by what it does to the server: it calls
`router_.route` any number of times and then returns or throws.
-/

namespace HttpsServer.Server

open ThreadPool (ShutdownCall Outcome)

/-- The data members of a `Server`. -/
inductive Member where
  | config
  | listener
  | tlsContext
  | threadPool
  | router
  | running
  | stopping
  | activeConnections
  deriving DecidableEq, Repr

/-- The members in the order of their declaration. -/
def declared : List Member :=
  [.config, .listener, .tlsContext, .threadPool, .router, .running, .stopping, .activeConnections]

/-- Members are destroyed in the reverse order of their declaration. -/
def destructionOrder : List Member := declared.reverse

/-- The statements of `stop` and `shutdown`. -/
inductive Stmt where
  /-- `stopping_ = true` -/
  | setStopping
  /-- `running_ = false` -/
  | clearRunning
  /-- `listener_->stop()` -/
  | stopListener
  /-- The critical section of `thread_pool_->shutdown()`. -/
  | shutdownPool
  /-- `condition_.notify_all()` in `thread_pool_->shutdown()`. -/
  | notifyPool
  deriving DecidableEq, Repr

/-- The body of `Server::stop`. -/
def stop : List Stmt := [.setStopping, .clearRunning, .stopListener]

/-- The body of `Server::shutdown`. -/
def shutdown : List Stmt :=
  [.setStopping, .clearRunning, .stopListener, .shutdownPool, .notifyPool]

/-- How far the handling of an accepted connection has come. -/
inductive Phase where
  /-- In `handle_connection`, before `submit` has accepted its task. -/
  | handshaking
  /-- In `handle_connection` after a failed handshake. -/
  | refused
  /-- Its task is queued or inside `connection->run`. -/
  | pooled
  /-- Its task is past `connection->run`. -/
  | closing
  /-- `--active_connections_` has been executed. -/
  | ended
  /-- An exception has left `handle_connection` or the task. -/
  | abandoned
  deriving DecidableEq, Repr

/-- Nothing is left to do for the connection. -/
def Phase.over : Phase → Bool
  | .ended => true
  | .abandoned => true
  | _ => false

/-- How setting up a connection and its handshake end. -/
inductive Handshake where
  | succeeded
  | failed
  | threw
  deriving DecidableEq, Repr

/-- How `connection->run` ends. -/
inductive RunEnd where
  | returned
  /-- `read_request` throws on a request it cannot parse. -/
  | malformedRequest
  /-- The handler called by `router_.route` throws. -/
  | handlerThrew
  deriving DecidableEq, Repr

/-- `connection->run` ends with an exception. -/
def RunEnd.throws : RunEnd → Bool
  | .returned => false
  | .malformedRequest => true
  | .handlerThrew => true

/-- Where the thread that owns the server stands. -/
inductive Owner where
  /-- Outside every member function. -/
  | outside
  /-- In `run`, before `listener_->open()`. -/
  | opening
  /-- In `run`, at the condition of the loop. -/
  | looping
  /-- In `run`, before `listener_->accept()`. -/
  | accepting
  /-- In `handle_connection`, before `connection->handshake()`. -/
  | handshaking (connection : Nat)
  /-- In `handle_connection`, before `--active_connections_`. -/
  | refusing (connection : Nat)
  /-- In `handle_connection`, before the critical section of `submit`. -/
  | submitting (connection : Nat)
  /-- In `submit`, before `notify_one`. -/
  | notifying
  /-- In the `catch` clause of `run`. -/
  | caught
  /-- In `run`, executing `shutdown()`. -/
  | closing (rest : List Stmt)
  /-- In `~Server`, executing `shutdown()`. -/
  | tearingDown (rest : List Stmt)
  /-- After the body of `~Server`, with these members still to destroy. -/
  | destroying (rest : List Member)
  /-- The server is gone. -/
  | destroyed
  deriving DecidableEq, Repr

/-- The owner has entered `~Server`. -/
def Owner.inDestructor : Owner → Bool
  | .tearingDown _ => true
  | .destroying _ => true
  | .destroyed => true
  | _ => false

/-- The server and the threads that use it. -/
structure State where
  owner : Owner
  /-- What each call of `stop` in progress has still to execute. -/
  stoppers : List (List Stmt)
  running : Bool
  stopping : Bool
  listener : TcpListener
  pool : ThreadPool.State Nat
  /-- The phase of each accepted connection, in the order of acceptance. -/
  connections : List Phase
  activeConnections : Nat
  deriving DecidableEq, Repr

/-- A server after construction, with a pool of `n` workers.  The owner is the
only client of the pool. -/
def State.initial (n : Nat) : State where
  owner := .outside
  stoppers := []
  running := false
  stopping := false
  listener := .initial
  pool := .initial n 1
  connections := []
  activeConnections := 0

/-- The steps of the owner, of the callers of `stop` and of the workers. -/
inductive Action where
  /-- The owner calls `run`, which executes `running_ = true`. -/
  | run
  /-- `listener_->open()`, with the system call that fails if any. -/
  | openListener (fault : Option OpenFault)
  /-- `while (running_ && !stopping_)`.  `stopping_` is set before `running_`
  is cleared and never reset, so the two reads count as one. -/
  | loopTest
  /-- `listener_->accept()` returns a socket, for which `handle_connection`
  executes `++active_connections_`, or throws. -/
  | accept (accepted : Bool)
  /-- `connection->handshake()` -/
  | handshake (result : Handshake)
  /-- `--active_connections_` after a failed handshake. -/
  | refuse
  /-- The critical section of `thread_pool_->submit(task)`. -/
  | submit
  /-- `notify_one` of `submit`, with the worker it wakes if any. -/
  | notifyOne (sleeper : Option Nat)
  /-- `catch (...)` of the loop in `run`. -/
  | catchAll
  /-- The owner executes a statement of `shutdown`, or leaves it. -/
  | shutdownStmt
  /-- The owner begins `~Server`, when no other member function is running. -/
  | destroy
  /-- The next member is destroyed; `thread_pool_` takes several steps. -/
  | destroyMember
  /-- A thread calls `stop`. -/
  | callStop
  /-- Call `i` of `stop` executes a statement. -/
  | stopStmt (i : Nat)
  /-- Worker `w` wakes up spuriously. -/
  | wake (w : Nat)
  /-- Worker `w` runs the critical section of `worker_loop`. -/
  | lock (w : Nat)
  /-- The task of worker `w` calls `router_.route`. -/
  | route (w : Nat)
  /-- In the task of worker `w`, `connection->run` ends. -/
  | endRun (w : Nat) (result : RunEnd)
  /-- The task of worker `w` executes `--active_connections_`. -/
  | decrement (w : Nat)
  /-- The task of worker `w` returns. -/
  | taskReturns (w : Nat)
  deriving DecidableEq, Repr

namespace State

variable (s : State)

/-- The connections whose handling has not ended. -/
def live : Nat := s.connections.countP fun p => !p.over

/-- The member has not been destroyed. -/
def alive (m : Member) : Bool :=
  match s.owner with
  | .destroying rest => rest.contains m
  | .destroyed => false
  | _ => true

/-- The connection worker `w` serves. -/
def serving (w : Nat) : Option Nat :=
  match s.pool.workers[w]? with
  | some (.running task) => some task.callable
  | _ => none

/-- A step of the pool. -/
def poolStep (a : ThreadPool.Action Nat) : Option State :=
  (s.pool.step a).map fun pool => { s with pool := pool }

/-- The handling of connection `c` reaches a phase. -/
def setPhase (c : Nat) (p : Phase) : State :=
  { s with connections := s.connections.set c p }

/-- The effect of a statement of `stop` or `shutdown`. -/
def execute : Stmt → Option State
  | .setStopping => some { s with stopping := true }
  | .clearRunning => some { s with running := false }
  | .stopListener => some { s with listener := s.listener.stop }
  | .shutdownPool => s.poolStep (.shutdown 0 .shutdown)
  | .notifyPool => s.poolStep (.notifyAll 0)

/-- What `handle_connection` does with the result of the handshake.  The
exception of a handshake that throws reaches the `catch` clause of `run`. -/
def handshake (c : Nat) : Handshake → State
  | .succeeded => { s with owner := .submitting c }
  | .failed => { s.setPhase c .refused with owner := .refusing c }
  | .threw => { s.setPhase c .abandoned with owner := .caught }

/-- `thread_pool_->submit(task)`: the pool queues the task, or throws. -/
def submit (c : Nat) : Option State :=
  (s.poolStep (.submit 0 c)).map fun t =>
    if s.pool.accepting then { t.setPhase c .pooled with owner := .notifying }
    else { t.setPhase c .abandoned with owner := .caught }

/-- The next step of `~ThreadPool`, which the owner takes as a client of the
pool. -/
def poolDestructor : Option (ThreadPool.Action Nat) :=
  match s.pool.clients[(0 : Nat)]? with
  | some .idle => some (.shutdown 0 .destructor)
  | some (.notifyAll _) => some (.notifyAll 0)
  | some (.joining _) => some (.join 0)
  | some (.blocked _) => some (.join 0)
  | some .joined => some (.leave 0)
  | _ => none

/-- The next member is destroyed.  `thread_pool_` is gone once its destructor
has left the loop over the workers. -/
def destroyMember : List Member → Option State
  | [] => some { s with owner := .destroyed }
  | .threadPool :: rest => do
      let a ← s.poolDestructor
      let t ← s.poolStep a
      if a = .leave 0 then some { t with owner := .destroying rest } else some t
  | _ :: rest => some { s with owner := .destroying rest }

/-- `connection->run` ends in the task of worker `w`.  An exception leaves the
task for its future. -/
def endRun (w c : Nat) (result : RunEnd) : Option State :=
  if result.throws then (s.setPhase c .abandoned).poolStep (.finish w .threw)
  else some (s.setPhase c .closing)

/-- One step; `none` where it is not its thread's turn. -/
def step : Action → Option State
  | .run => if s.owner = .outside then some { s with owner := .opening, running := true } else none
  | .openListener fault =>
      if s.owner = .opening then
        some { s with
          listener := s.listener.open fault
          owner := if fault.isNone then .looping else .outside }
      else none
  | .loopTest =>
      if s.owner = .looping then
        some { s with owner := if s.running && !s.stopping then .accepting else .closing shutdown }
      else none
  | .accept accepted =>
      if s.owner ≠ .accepting then none
      else if !accepted then some { s with owner := .caught }
      else if s.listener.canAccept then
        some { s with
          owner := .handshaking s.connections.length
          connections := s.connections ++ [.handshaking]
          activeConnections := s.activeConnections + 1 }
      else none
  | .handshake result =>
      match s.owner with
      | .handshaking c => some (s.handshake c result)
      | _ => none
  | .refuse =>
      match s.owner with
      | .refusing c =>
          some { s.setPhase c .ended with
            owner := .looping
            activeConnections := s.activeConnections - 1 }
      | _ => none
  | .submit =>
      match s.owner with
      | .submitting c => s.submit c
      | _ => none
  | .notifyOne sleeper =>
      if s.owner = .notifying then
        (s.poolStep (.notifyOne 0 sleeper)).map fun t => { t with owner := .looping }
      else none
  | .catchAll =>
      if s.owner = .caught then
        some { s with owner := if s.stopping then .closing shutdown else .looping }
      else none
  | .shutdownStmt =>
      match s.owner with
      | .closing [] => some { s with owner := .outside }
      | .closing (x :: rest) => (s.execute x).map fun t => { t with owner := .closing rest }
      | .tearingDown [] => some { s with owner := .destroying destructionOrder }
      | .tearingDown (x :: rest) => (s.execute x).map fun t => { t with owner := .tearingDown rest }
      | _ => none
  | .destroy =>
      if s.owner = .outside ∧ ∀ rest ∈ s.stoppers, rest = [] then
        some { s with owner := .tearingDown shutdown }
      else none
  | .destroyMember =>
      match s.owner with
      | .destroying rest => s.destroyMember rest
      | _ => none
  | .callStop =>
      if s.owner.inDestructor then none else some { s with stoppers := s.stoppers ++ [stop] }
  | .stopStmt i =>
      match s.stoppers[i]? with
      | some (x :: rest) =>
          (s.execute x).map fun t => { t with stoppers := t.stoppers.set i rest }
      | _ => none
  | .wake w => s.poolStep (.wake w)
  | .lock w => s.poolStep (.lock w)
  | .route w =>
      match s.serving w with
      | some c => if s.connections[c]? = some .pooled then some s else none
      | none => none
  | .endRun w result =>
      match s.serving w with
      | some c => if s.connections[c]? = some .pooled then s.endRun w c result else none
      | none => none
  | .decrement w =>
      match s.serving w with
      | some c =>
          if s.connections[c]? = some .closing then
            some { s.setPhase c .ended with activeConnections := s.activeConnections - 1 }
          else none
      | none => none
  | .taskReturns w =>
      match s.serving w with
      | some c =>
          if s.connections[c]? = some .ended then s.poolStep (.finish w .returned) else none
      | none => none

end State

/-- A server whose pool has `n` workers. -/
def machine (n : Nat) : Machine State Action where
  init := .initial n
  step := State.step

/-! ## What a step can do -/

/-- The steps of the server, one constructor for each thing that can happen. -/
inductive Step (s : State) : Action → State → Prop
  | run : s.owner = .outside → Step s .run { s with owner := .opening, running := true }
  | opened : s.owner = .opening →
      Step s (.openListener none) { s with listener := s.listener.open none, owner := .looping }
  | openThrew {fault : OpenFault} : s.owner = .opening →
      Step s (.openListener (some fault))
        { s with listener := s.listener.open (some fault), owner := .outside }
  | loopContinued : s.owner = .looping → s.running = true → s.stopping = false →
      Step s .loopTest { s with owner := .accepting }
  | loopLeft : s.owner = .looping → (s.running && !s.stopping) = false →
      Step s .loopTest { s with owner := .closing shutdown }
  | accepted : s.owner = .accepting → s.listener.canAccept = true →
      Step s (.accept true)
        { s with
          owner := .handshaking s.connections.length
          connections := s.connections ++ [.handshaking]
          activeConnections := s.activeConnections + 1 }
  | acceptThrew : s.owner = .accepting → Step s (.accept false) { s with owner := .caught }
  | handshakeSucceeded {c : Nat} : s.owner = .handshaking c →
      Step s (.handshake .succeeded) { s with owner := .submitting c }
  | handshakeFailed {c : Nat} : s.owner = .handshaking c →
      Step s (.handshake .failed) { s.setPhase c .refused with owner := .refusing c }
  | handshakeThrew {c : Nat} : s.owner = .handshaking c →
      Step s (.handshake .threw) { s.setPhase c .abandoned with owner := .caught }
  | refused {c : Nat} : s.owner = .refusing c →
      Step s .refuse
        { s.setPhase c .ended with
          owner := .looping
          activeConnections := s.activeConnections - 1 }
  | submitted {c : Nat} {pool : ThreadPool.State Nat} : s.owner = .submitting c →
      s.pool.accepting = true → s.pool.step (.submit 0 c) = some pool →
      Step s .submit { s.setPhase c .pooled with pool := pool, owner := .notifying }
  | submitThrew {c : Nat} {pool : ThreadPool.State Nat} : s.owner = .submitting c →
      s.pool.accepting = false → s.pool.step (.submit 0 c) = some pool →
      Step s .submit { s.setPhase c .abandoned with pool := pool, owner := .caught }
  | notified {sleeper : Option Nat} {pool : ThreadPool.State Nat} : s.owner = .notifying →
      s.pool.step (.notifyOne 0 sleeper) = some pool →
      Step s (.notifyOne sleeper) { s with pool := pool, owner := .looping }
  | caught : s.owner = .caught →
      Step s .catchAll { s with owner := if s.stopping then .closing shutdown else .looping }
  | closingStmt {x : Stmt} {rest : List Stmt} {t : State} : s.owner = .closing (x :: rest) →
      s.execute x = some t → Step s .shutdownStmt { t with owner := .closing rest }
  | closed : s.owner = .closing [] → Step s .shutdownStmt { s with owner := .outside }
  | tearingDownStmt {x : Stmt} {rest : List Stmt} {t : State} :
      s.owner = .tearingDown (x :: rest) → s.execute x = some t →
      Step s .shutdownStmt { t with owner := .tearingDown rest }
  | tornDown : s.owner = .tearingDown [] →
      Step s .shutdownStmt { s with owner := .destroying destructionOrder }
  | destroyCalled : s.owner = .outside → (∀ rest ∈ s.stoppers, rest = []) →
      Step s .destroy { s with owner := .tearingDown shutdown }
  | memberDestroyed {m : Member} {rest : List Member} : s.owner = .destroying (m :: rest) →
      m ≠ .threadPool → Step s .destroyMember { s with owner := .destroying rest }
  | poolDestroyed {rest : List Member} {a : ThreadPool.Action Nat}
      {pool : ThreadPool.State Nat} : s.owner = .destroying (.threadPool :: rest) →
      s.poolDestructor = some a → s.pool.step a = some pool →
      Step s .destroyMember
        { s with
          pool := pool
          owner := if a = .leave 0 then .destroying rest else s.owner }
  | destroyed : s.owner = .destroying [] → Step s .destroyMember { s with owner := .destroyed }
  | stopCalled : s.owner.inDestructor = false →
      Step s .callStop { s with stoppers := s.stoppers ++ [stop] }
  | stopStmt {i : Nat} {x : Stmt} {rest : List Stmt} {t : State} :
      s.stoppers[i]? = some (x :: rest) → s.execute x = some t →
      Step s (.stopStmt i) { t with stoppers := t.stoppers.set i rest }
  | woken {w : Nat} {pool : ThreadPool.State Nat} : s.pool.step (.wake w) = some pool →
      Step s (.wake w) { s with pool := pool }
  | locked {w : Nat} {pool : ThreadPool.State Nat} : s.pool.step (.lock w) = some pool →
      Step s (.lock w) { s with pool := pool }
  | routed {w c : Nat} : s.serving w = some c → s.connections[c]? = some .pooled →
      Step s (.route w) s
  | runReturned {w c : Nat} : s.serving w = some c → s.connections[c]? = some .pooled →
      Step s (.endRun w .returned) (s.setPhase c .closing)
  | runThrew {w c : Nat} {result : RunEnd} {pool : ThreadPool.State Nat} :
      s.serving w = some c → s.connections[c]? = some .pooled → result.throws = true →
      s.pool.step (.finish w .threw) = some pool →
      Step s (.endRun w result) { s.setPhase c .abandoned with pool := pool }
  | decremented {w c : Nat} : s.serving w = some c → s.connections[c]? = some .closing →
      Step s (.decrement w)
        { s.setPhase c .ended with activeConnections := s.activeConnections - 1 }
  | taskReturned {w c : Nat} {pool : ThreadPool.State Nat} : s.serving w = some c →
      s.connections[c]? = some .ended → s.pool.step (.finish w .returned) = some pool →
      Step s (.taskReturns w) { s with pool := pool }

@[simp] theorem State.setPhase_connections (s : State) (c : Nat) (p : Phase) :
    (s.setPhase c p).connections = s.connections.set c p := rfl

theorem State.poolStep_eq_some {s t : State} {a : ThreadPool.Action Nat} :
    s.poolStep a = some t ↔ ∃ pool, s.pool.step a = some pool ∧ { s with pool := pool } = t := by
  simp [poolStep, Option.map_eq_some_iff]

/-- `submit` queues the task or throws. -/
theorem Step.of_submit {s t : State} {c : Nat} (hc : s.owner = .submitting c)
    (h : s.submit c = some t) : Step s .submit t := by
  simp only [State.submit, Option.map_eq_some_iff, State.poolStep_eq_some] at h
  obtain ⟨u, ⟨pool, hpool, rfl⟩, rfl⟩ := h
  cases hacc : s.pool.accepting with
  | true => exact .submitted hc hacc hpool
  | false => exact .submitThrew hc hacc hpool

/-- `connection->run` returns or throws. -/
theorem Step.of_endRun {s t : State} {w c : Nat} {result : RunEnd} (hw : s.serving w = some c)
    (hc : s.connections[c]? = some .pooled) (h : s.endRun w c result = some t) :
    Step s (.endRun w result) t := by
  unfold State.endRun at h
  split at h
  · next hthrows =>
      obtain ⟨pool, hpool, rfl⟩ := State.poolStep_eq_some.1 h
      exact .runThrew hw hc hthrows hpool
  · obtain rfl : result = .returned := by
      cases result <;> simp_all [RunEnd.throws]
    cases h
    exact .runReturned hw hc

/-- A member is destroyed, `thread_pool_` in several steps. -/
theorem Step.of_destroyMember {s t : State} {rest : List Member} (hs : s.owner = .destroying rest)
    (h : s.destroyMember rest = some t) : Step s .destroyMember t := by
  unfold State.destroyMember at h
  split at h
  · cases h
    exact .destroyed hs
  · simp only [Option.bind_eq_bind, Option.bind_eq_some_iff] at h
    obtain ⟨a, ha, u, hu, h⟩ := h
    obtain ⟨pool, hpool, rfl⟩ := State.poolStep_eq_some.1 hu
    have hstep := Step.poolDestroyed hs ha hpool
    split at h
    · cases h
      simpa [*] using hstep
    · cases h
      simpa [*] using hstep
  · cases h
    exact .memberDestroyed hs (by rintro rfl; simp_all)

/-- **Inversion**: a step is one of the things that can happen. -/
theorem Step.of_step {s t : State} {a : Action} (h : s.step a = some t) : Step s a t := by
  cases a with
  | run =>
      simp only [State.step, Option.ite_none_right_eq_some, Option.some.injEq] at h
      obtain ⟨hs, rfl⟩ := h
      exact .run hs
  | openListener fault =>
      simp only [State.step, Option.ite_none_right_eq_some, Option.some.injEq] at h
      obtain ⟨hs, rfl⟩ := h
      cases fault with
      | none => exact .opened hs
      | some fault => exact .openThrew hs
  | loopTest =>
      simp only [State.step, Option.ite_none_right_eq_some, Option.some.injEq] at h
      obtain ⟨hs, rfl⟩ := h
      split
      · next htest =>
          simp only [Bool.and_eq_true, Bool.not_eq_true'] at htest
          exact .loopContinued hs htest.1 htest.2
      · next htest => exact .loopLeft hs (Bool.eq_false_iff.2 htest)
  | accept accepted =>
      simp only [State.step, Option.ite_none_left_eq_some, ne_eq, not_not] at h
      obtain ⟨hs, h⟩ := h
      cases accepted with
      | false =>
          cases h
          exact .acceptThrew hs
      | true =>
          simp only [Bool.not_true, Bool.false_eq_true, ↓reduceIte, Option.ite_none_right_eq_some,
            Option.some.injEq] at h
          obtain ⟨hl, rfl⟩ := h
          exact .accepted hs hl
  | handshake result =>
      simp only [State.step] at h
      split at h
      · next hs =>
          cases h
          cases result with
          | succeeded => exact .handshakeSucceeded hs
          | failed => exact .handshakeFailed hs
          | threw => exact .handshakeThrew hs
      · cases h
  | refuse =>
      simp only [State.step] at h
      split at h
      · next hs =>
          cases h
          exact .refused hs
      · cases h
  | submit =>
      simp only [State.step] at h
      split at h
      · next hs => exact .of_submit hs h
      · cases h
  | notifyOne sleeper =>
      simp only [State.step, Option.ite_none_right_eq_some, Option.map_eq_some_iff,
        State.poolStep_eq_some] at h
      obtain ⟨hs, u, ⟨pool, hpool, rfl⟩, rfl⟩ := h
      exact .notified hs hpool
  | catchAll =>
      simp only [State.step, Option.ite_none_right_eq_some, Option.some.injEq] at h
      obtain ⟨hs, rfl⟩ := h
      exact .caught hs
  | shutdownStmt =>
      simp only [State.step] at h
      split at h
      · next hs =>
          cases h
          exact .closed hs
      · next hs =>
          obtain ⟨u, hu, rfl⟩ := Option.map_eq_some_iff.1 h
          exact .closingStmt hs hu
      · next hs =>
          cases h
          exact .tornDown hs
      · next hs =>
          obtain ⟨u, hu, rfl⟩ := Option.map_eq_some_iff.1 h
          exact .tearingDownStmt hs hu
      · cases h
  | destroy =>
      simp only [State.step, Option.ite_none_right_eq_some, Option.some.injEq] at h
      obtain ⟨⟨hs, hstoppers⟩, rfl⟩ := h
      exact .destroyCalled hs hstoppers
  | destroyMember =>
      simp only [State.step] at h
      split at h
      · next hs => exact .of_destroyMember hs h
      · cases h
  | callStop =>
      simp only [State.step, Option.ite_none_left_eq_some, Option.some.injEq] at h
      obtain ⟨hs, rfl⟩ := h
      exact .stopCalled (Bool.eq_false_iff.2 hs)
  | stopStmt i =>
      simp only [State.step] at h
      split at h
      · next hs =>
          obtain ⟨u, hu, rfl⟩ := Option.map_eq_some_iff.1 h
          exact .stopStmt hs hu
      · cases h
  | wake w =>
      obtain ⟨pool, hpool, rfl⟩ := State.poolStep_eq_some.1 h
      exact .woken hpool
  | lock w =>
      obtain ⟨pool, hpool, rfl⟩ := State.poolStep_eq_some.1 h
      exact .locked hpool
  | route w =>
      simp only [State.step] at h
      split at h
      · next hw =>
          obtain ⟨hc, h⟩ := Option.ite_none_right_eq_some.1 h
          cases h
          exact .routed hw hc
      · cases h
  | endRun w result =>
      simp only [State.step] at h
      split at h
      · next hw =>
          obtain ⟨hc, h⟩ := Option.ite_none_right_eq_some.1 h
          exact .of_endRun hw hc h
      · cases h
  | decrement w =>
      simp only [State.step] at h
      split at h
      · next hw =>
          obtain ⟨hc, h⟩ := Option.ite_none_right_eq_some.1 h
          cases h
          exact .decremented hw hc
      · cases h
  | taskReturns w =>
      simp only [State.step] at h
      split at h
      · next hw =>
          obtain ⟨hc, h⟩ := Option.ite_none_right_eq_some.1 h
          obtain ⟨pool, hpool, rfl⟩ := State.poolStep_eq_some.1 h
          exact .taskReturned hw hc hpool
      · cases h

/-- The statements of `stop` and `shutdown` leave the owner, the calls of `stop`
and the connections as they are. -/
theorem State.execute_frame {s t : State} {x : Stmt} (h : s.execute x = some t) :
    t.owner = s.owner ∧ t.stoppers = s.stoppers ∧ t.connections = s.connections ∧
      t.activeConnections = s.activeConnections := by
  cases x with
  | setStopping | clearRunning | stopListener =>
      cases h
      exact ⟨rfl, rfl, rfl, rfl⟩
  | shutdownPool | notifyPool =>
      obtain ⟨pool, -, rfl⟩ := poolStep_eq_some.1 h
      exact ⟨rfl, rfl, rfl, rfl⟩

end HttpsServer.Server
