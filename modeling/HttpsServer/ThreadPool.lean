import HttpsServer.Machine
import HttpsServer.Slots

/-!
# HttpsServer.ThreadPool

`thread::ThreadPool` as a machine whose steps are the critical sections on
`mutex_`, the notifications of `condition_`, and the calls of the tasks.

`condition_` is the set of workers that are `asleep`.  The threads that call
`submit`, `shutdown`, `wait` or the destructor are *clients*: any number of
them, each with a position of its own, so that the notification that follows a
critical section is a separate, later step.  A task that itself calls the pool
makes its steps as a client too.

Three histories accompany the state: the tasks accepted by `submit`, the tasks
dequeued by workers, and the futures made ready.  No step reads them.
-/

namespace HttpsServer.ThreadPool

/-- How the call of a task ended.  `std::packaged_task` stores the value or the
exception in the future and returns to the worker in both cases. -/
inductive Outcome where
  | returned
  | threw
  deriving DecidableEq, Repr

/-- An accepted task: the callable bound by `submit`, which is never empty, and
the place in the order of acceptance that tells it from every other task. -/
structure Task (φ : Type) where
  ticket : Nat
  callable : φ
  deriving DecidableEq, Repr

/-- Where a worker stands in `worker_loop`. -/
inductive Worker (φ : Type) where
  /-- About to lock `mutex_`: on entry, after a wake-up, after a task. -/
  | ready
  /-- Inside `condition_.wait`. -/
  | asleep
  /-- Inside `task()`. -/
  | running (task : Task φ)
  /-- `worker_loop` has returned. -/
  | exited
  deriving DecidableEq, Repr

/-- The functions that request shutdown. -/
inductive ShutdownCall where
  | shutdown
  | wait
  | destructor
  deriving DecidableEq, Repr

/-- `wait` and the destructor go on to join the workers. -/
def ShutdownCall.joins : ShutdownCall → Bool
  | .shutdown => false
  | .wait => true
  | .destructor => true

/-- Where a thread that uses the pool stands. -/
inductive Client where
  | idle
  /-- In `submit`, between its critical section and `notify_one`. -/
  | notifyOne
  /-- In `shutdown`, between its critical section and `notify_all`. -/
  | notifyAll (call : ShutdownCall)
  /-- In the loop over `workers_`, at worker `i`. -/
  | joining (i : Nat)
  /-- Inside `join` of worker `i`. -/
  | blocked (i : Nat)
  /-- The loop over `workers_` has ended. -/
  | joined
  deriving DecidableEq, Repr

/-- The pool, its workers and its clients. -/
structure State (φ : Type) where
  tasks : List (Task φ)
  accepting : Bool
  stopping : Bool
  workers : List (Worker φ)
  /-- `joinable()` of each thread in `workers_`. -/
  joinable : List Bool
  clients : List Client
  /-- The tasks accepted by `submit` so far, in that order. -/
  accepted : List (Task φ)
  /-- The tasks dequeued by the workers so far, in that order. -/
  dequeued : List (Task φ)
  /-- The futures made ready so far. -/
  futures : List (Task φ × Outcome)
  deriving DecidableEq, Repr

/-- The number of workers the constructor starts. -/
def workerCount (requested hardwareConcurrency : Nat) : Nat :=
  if requested = 0 then max 1 hardwareConcurrency else requested

theorem workerCount_pos (requested hardwareConcurrency : Nat) :
    0 < workerCount requested hardwareConcurrency := by
  unfold workerCount
  split <;> omega

/-- A pool of `n` workers, none of which has run yet, and `k` clients. -/
def State.initial {φ : Type} (n k : Nat) : State φ where
  tasks := []
  accepting := true
  stopping := false
  workers := List.replicate n .ready
  joinable := List.replicate n true
  clients := List.replicate k .idle
  accepted := []
  dequeued := []
  futures := []

/-- The steps of clients and workers. -/
inductive Action (φ : Type) where
  /-- Client `c` runs the critical section of `submit`. -/
  | submit (c : Nat) (f : φ)
  /-- Client `c` calls `notify_one`, which wakes the given worker if any. -/
  | notifyOne (c : Nat) (sleeper : Option Nat)
  /-- Client `c` runs the critical section of `shutdown`. -/
  | shutdown (c : Nat) (call : ShutdownCall)
  /-- Client `c` calls `notify_all`. -/
  | notifyAll (c : Nat)
  /-- Client `c` takes a step of the loop over `workers_`. -/
  | join (c : Nat)
  /-- Client `c` leaves `wait` or the destructor. -/
  | leave (c : Nat)
  /-- Worker `w` wakes up spuriously. -/
  | wake (w : Nat)
  /-- Worker `w` runs the critical section of `worker_loop`. -/
  | lock (w : Nat)
  /-- The task of worker `w` ends. -/
  | finish (w : Nat) (outcome : Outcome)
  deriving DecidableEq, Repr

namespace Worker

variable {φ : Type}

/-- The task a worker holds. -/
def task? : Worker φ → Option (Task φ)
  | running t => some t
  | _ => none

/-- The worker sleeps on `condition_`. -/
def isAsleep : Worker φ → Bool
  | asleep => true
  | _ => false

/-- The worker is about to lock `mutex_`. -/
def isReady : Worker φ → Bool
  | ready => true
  | _ => false

/-- What `notify_all` does to a worker. -/
def woken : Worker φ → Worker φ
  | asleep => ready
  | w => w

end Worker

namespace State

variable {φ : Type} (s : State φ)

/-- The tasks the workers hold. -/
def held : List (Task φ) := s.workers.filterMap Worker.task?

/-- The tasks that have been run to their end. -/
def finished : List (Task φ) := s.futures.map Prod.fst

/-- The critical section of `submit`.  A rejected task leaves the pool as it
is: the exception is thrown before `tasks_` is touched. -/
def submit (c : Nat) (f : φ) : State φ :=
  if !s.accepting then s
  else
    let task := ⟨s.accepted.length, f⟩
    { s with
      tasks := s.tasks ++ [task]
      clients := s.clients.set c .notifyOne
      accepted := s.accepted ++ [task] }

/-- `condition_.notify_one()` wakes one sleeper, or nobody when nobody
sleeps. -/
def notifyOne (c : Nat) : Option Nat → Option (State φ)
  | some w =>
      match s.workers[w]? with
      | some .asleep =>
          some { s with workers := s.workers.set w .ready, clients := s.clients.set c .idle }
      | _ => none
  | none =>
      if s.workers.any Worker.isAsleep then none
      else some { s with clients := s.clients.set c .idle }

/-- The critical section of `shutdown`. -/
def shutdown (c : Nat) (call : ShutdownCall) : State φ :=
  { s with accepting := false, stopping := true, clients := s.clients.set c (.notifyAll call) }

/-- `condition_.notify_all()`, after which `wait` and the destructor enter the
loop over `workers_`. -/
def notifyAll (c : Nat) (call : ShutdownCall) : State φ :=
  { s with
    workers := s.workers.map Worker.woken
    clients := s.clients.set c (if call.joins then .joining 0 else .idle) }

/-- The loop over `workers_` at worker `i`. -/
def joinLoop (c i : Nat) : State φ :=
  match s.joinable[i]? with
  | none => { s with clients := s.clients.set c .joined }
  | some false => { s with clients := s.clients.set c (.joining (i + 1)) }
  | some true => { s with clients := s.clients.set c (.blocked i) }

/-- `join` of worker `i` returns once the worker has returned. -/
def joinReturns (c i : Nat) : Option (State φ) :=
  match s.workers[i]? with
  | some .exited =>
      some { s with
        joinable := s.joinable.set i false
        clients := s.clients.set c (.joining (i + 1)) }
  | _ => none

/-- The critical section of `worker_loop`, from the lock on `mutex_` to its
release by `condition_.wait`, by `return` or at the end of the block. -/
def workerLoop (w : Nat) : State φ :=
  if !(s.stopping || !s.tasks.isEmpty) then { s with workers := s.workers.set w .asleep }
  else
    match s.tasks with
    | [] =>
        if s.stopping then { s with workers := s.workers.set w .exited }
        else s
    | task :: rest =>
        { s with
          tasks := rest
          workers := s.workers.set w (.running task)
          dequeued := s.dequeued ++ [task] }

/-- `task()` returns to `worker_loop`, whatever the callable did. -/
def finish (w : Nat) (task : Task φ) (outcome : Outcome) : State φ :=
  { s with
    workers := s.workers.set w .ready
    futures := s.futures ++ [(task, outcome)] }

/-- One step of a client or of a worker; `none` where it is not its turn. -/
def step : Action φ → Option (State φ)
  | .submit c f => if s.clients[c]? = some .idle then some (s.submit c f) else none
  | .notifyOne c sleeper =>
      if s.clients[c]? = some .notifyOne then s.notifyOne c sleeper else none
  | .shutdown c call => if s.clients[c]? = some .idle then some (s.shutdown c call) else none
  | .notifyAll c =>
      match s.clients[c]? with
      | some (.notifyAll call) => some (s.notifyAll c call)
      | _ => none
  | .join c =>
      match s.clients[c]? with
      | some (.joining i) => some (s.joinLoop c i)
      | some (.blocked i) => s.joinReturns c i
      | _ => none
  | .leave c =>
      if s.clients[c]? = some .joined then some { s with clients := s.clients.set c .idle }
      else none
  | .wake w =>
      match s.workers[w]? with
      | some .asleep => some { s with workers := s.workers.set w .ready }
      | _ => none
  | .lock w =>
      match s.workers[w]? with
      | some .ready => some (s.workerLoop w)
      | _ => none
  | .finish w outcome =>
      match s.workers[w]? with
      | some (.running task) => some (s.finish w task outcome)
      | _ => none

end State

/-- The pool of `n` workers used by `k` clients. -/
def machine (φ : Type) (n k : Nat) : Machine (State φ) (Action φ) where
  init := .initial n k
  step := State.step

/-! ## What a step can do -/

variable {φ : Type}

/-- The steps of the pool, one constructor for each thing that can happen. -/
inductive Step (s : State φ) : Action φ → State φ → Prop
  | accepted {c : Nat} {f : φ} : s.clients[c]? = some .idle → s.accepting = true →
      Step s (.submit c f)
        { s with
          tasks := s.tasks ++ [⟨s.accepted.length, f⟩]
          clients := s.clients.set c .notifyOne
          accepted := s.accepted ++ [⟨s.accepted.length, f⟩] }
  | rejected {c : Nat} {f : φ} : s.clients[c]? = some .idle → s.accepting = false →
      Step s (.submit c f) s
  | notifiedOne {c w : Nat} : s.clients[c]? = some .notifyOne → s.workers[w]? = some .asleep →
      Step s (.notifyOne c (some w))
        { s with workers := s.workers.set w .ready, clients := s.clients.set c .idle }
  | notifiedNobody {c : Nat} : s.clients[c]? = some .notifyOne →
      s.workers.any Worker.isAsleep = false →
      Step s (.notifyOne c none) { s with clients := s.clients.set c .idle }
  | closed {c : Nat} {call : ShutdownCall} : s.clients[c]? = some .idle →
      Step s (.shutdown c call) (s.shutdown c call)
  | notifiedAll {c : Nat} {call : ShutdownCall} : s.clients[c]? = some (.notifyAll call) →
      Step s (.notifyAll c) (s.notifyAll c call)
  | loopEnded {c i : Nat} : s.clients[c]? = some (.joining i) → s.joinable.length ≤ i →
      Step s (.join c) { s with clients := s.clients.set c .joined }
  | skipped {c i : Nat} : s.clients[c]? = some (.joining i) → s.joinable[i]? = some false →
      Step s (.join c) { s with clients := s.clients.set c (.joining (i + 1)) }
  | joinCalled {c i : Nat} : s.clients[c]? = some (.joining i) → s.joinable[i]? = some true →
      Step s (.join c) { s with clients := s.clients.set c (.blocked i) }
  | joinReturned {c i : Nat} : s.clients[c]? = some (.blocked i) →
      s.workers[i]? = some .exited →
      Step s (.join c)
        { s with
          joinable := s.joinable.set i false
          clients := s.clients.set c (.joining (i + 1)) }
  | left {c : Nat} : s.clients[c]? = some .joined →
      Step s (.leave c) { s with clients := s.clients.set c .idle }
  | woken {w : Nat} : s.workers[w]? = some .asleep →
      Step s (.wake w) { s with workers := s.workers.set w .ready }
  | slept {w : Nat} : s.workers[w]? = some .ready → s.stopping = false → s.tasks = [] →
      Step s (.lock w) { s with workers := s.workers.set w .asleep }
  | exited {w : Nat} : s.workers[w]? = some .ready → s.stopping = true → s.tasks = [] →
      Step s (.lock w) { s with workers := s.workers.set w .exited }
  | took {w : Nat} {task : Task φ} {rest : List (Task φ)} : s.workers[w]? = some .ready →
      s.tasks = task :: rest →
      Step s (.lock w)
        { s with
          tasks := rest
          workers := s.workers.set w (.running task)
          dequeued := s.dequeued ++ [task] }
  | finished {w : Nat} {task : Task φ} {outcome : Outcome} :
      s.workers[w]? = some (.running task) →
      Step s (.finish w outcome) (s.finish w task outcome)

/-- The critical section of `worker_loop` puts the worker to sleep, ends it, or
gives it the front task. -/
theorem Step.of_workerLoop {s : State φ} {w : Nat} (hw : s.workers[w]? = some .ready) :
    Step s (.lock w) (s.workerLoop w) := by
  cases htasks : s.tasks with
  | nil =>
      cases hstop : s.stopping with
      | false =>
          have h : s.workerLoop w = { s with workers := s.workers.set w .asleep } := by
            simp [State.workerLoop, htasks, hstop]
          exact h ▸ .slept hw hstop htasks
      | true =>
          have h : s.workerLoop w = { s with workers := s.workers.set w .exited } := by
            simp [State.workerLoop, htasks, hstop]
          exact h ▸ .exited hw hstop htasks
  | cons task rest =>
      have h : s.workerLoop w =
          { s with
            tasks := rest
            workers := s.workers.set w (.running task)
            dequeued := s.dequeued ++ [task] } := by
        simp [State.workerLoop, htasks]
      exact h ▸ .took hw htasks

/-- The loop over `workers_` skips a thread, joins it, or ends. -/
theorem Step.of_joinLoop {s : State φ} {c i : Nat} (hc : s.clients[c]? = some (.joining i)) :
    Step s (.join c) (s.joinLoop c i) := by
  unfold State.joinLoop
  split
  · next hi => exact .loopEnded hc (List.getElem?_eq_none_iff.1 hi)
  · next hi => exact .skipped hc hi
  · next hi => exact .joinCalled hc hi

/-- **Inversion**: a step is one of the things that can happen. -/
theorem Step.of_step {s t : State φ} {a : Action φ} (h : s.step a = some t) : Step s a t := by
  cases a with
  | submit c f =>
      simp only [State.step, Option.ite_none_right_eq_some, Option.some.injEq] at h
      obtain ⟨hc, rfl⟩ := h
      cases hacc : s.accepting with
      | false => simpa [State.submit, hacc] using Step.rejected hc hacc
      | true => simpa [State.submit, hacc] using Step.accepted hc hacc
  | notifyOne c sleeper =>
      simp only [State.step, Option.ite_none_right_eq_some] at h
      obtain ⟨hc, h⟩ := h
      cases sleeper with
      | none =>
          simp only [State.notifyOne, Option.ite_none_left_eq_some, Option.some.injEq] at h
          obtain ⟨hnone, rfl⟩ := h
          exact .notifiedNobody hc (Bool.eq_false_iff.2 hnone)
      | some w =>
          simp only [State.notifyOne] at h
          split at h
          · next hs =>
              cases h
              exact .notifiedOne hc hs
          · cases h
  | shutdown c call =>
      simp only [State.step, Option.ite_none_right_eq_some, Option.some.injEq] at h
      obtain ⟨hc, rfl⟩ := h
      exact .closed hc
  | notifyAll c =>
      simp only [State.step] at h
      split at h
      · next hs =>
          cases h
          exact .notifiedAll hs
      · cases h
  | join c =>
      simp only [State.step] at h
      split at h
      · next hs =>
          cases h
          exact .of_joinLoop hs
      · next hc =>
          simp only [State.joinReturns] at h
          split at h
          · next hw =>
              cases h
              exact .joinReturned hc hw
          · cases h
      · cases h
  | leave c =>
      simp only [State.step, Option.ite_none_right_eq_some, Option.some.injEq] at h
      obtain ⟨hc, rfl⟩ := h
      exact .left hc
  | wake w =>
      simp only [State.step] at h
      split at h
      · next hs =>
          cases h
          exact .woken hs
      · cases h
  | lock w =>
      simp only [State.step] at h
      split at h
      · next hs =>
          cases h
          exact .of_workerLoop hs
      · cases h
  | finish w outcome =>
      simp only [State.step] at h
      split at h
      · next hs =>
          cases h
          exact .finished hs
      · cases h

/-- What every kind of step preserves holds in every reachable state. -/
theorem invariant_of_step {n k : Nat} {I : State φ → Prop} (hinit : I (.initial n k))
    (hstep : ∀ s a t, I s → Step s a t → I t) {s : State φ} (h : (machine φ n k).Reachable s) :
    I s :=
  h.invariant hinit fun s a t hs hst => hstep s a t hs (.of_step hst)

end HttpsServer.ThreadPool
