import HttpsServer.Server.Placement
import HttpsServer.Server.References
import HttpsServer.ThreadPool.Quiescence

/-!
# HttpsServer.Server.Work

What the threads of a server have still to do.

`work` counts the statements of `shutdown` that the owner and the callers of
`stop` have before them, the members to destroy, the tasks of the pool and the
connections being served.  Once `stopping_` is set, no connection is accepted
but the one the owner may be waiting for, and every step of the threads' own
uses some of the work up (`Step.work`).
-/

namespace HttpsServer.Server

open ThreadPool (Client)

/-! ## The measure -/

/-- A step the threads take of themselves: no new call of `run`, `stop` or the
destructor, no spurious wake-up, and no further request. -/
def Action.own : Action → Bool
  | run | destroy | callStop | wake _ | route _ => false
  | openListener _ | loopTest | accept _ | handshake _ | refuse | submit | notifyOne _ | catchAll
  | shutdownStmt | destroyMember | stopStmt _ | lock _ | endRun _ _ | decrement _
  | taskReturns _ => true

/-- The end of a call that may wait for the network. -/
def Action.waits : Action → Bool
  | accept _ | handshake _ | endRun _ _ => true
  | _ => false

/-- The steps of a connection's task. -/
def Phase.work : Phase → Nat
  | pooled => 2
  | closing => 1
  | handshaking | refused | ended | abandoned => 0

/-- The steps of the owner.  A statement of `shutdown` and the destruction of a
member may be the one that shuts the pool down, and are worth the
notification of `n` workers; a client inside the pool has that behind it. -/
def Owner.work (n : Nat) (clients : List Client) : Owner → Nat
  | outside | destroyed => 0
  | closing rest => (3 * n + 4) * rest.length + 1
  | looping => (3 * n + 4) * 5 + 2
  | opening | refusing _ | notifying | caught => (3 * n + 4) * 5 + 3
  | submitting _ => (3 * n + 4) * 5 + 10
  | handshaking _ => (3 * n + 4) * 5 + 11
  | accepting => (3 * n + 4) * 5 + 12
  | tearingDown rest => (3 * n + 4) * (rest.length + 8) + 2
  | destroying rest =>
      if clients = [.idle] then (3 * n + 4) * rest.length + 1
      else (3 * n + 4) * (rest.length - 1) + 1

/-- What the threads have still to do. -/
def State.work (n : Nat) (s : State) : Nat :=
  s.owner.work n s.pool.clients + (s.stoppers.map List.length).sum + s.pool.work n +
    (s.connections.map Phase.work).sum

/-- What comes in from outside. -/
def Action.brings (n : Nat) : Action → Nat
  | run => (3 * n + 4) * 5 + 3
  | destroy => (3 * n + 4) * 13 + 2
  | callStop => 3
  | wake _ => 1
  | _ => 0

theorem Action.brings_of_own {a : Action} (n : Nat) (h : a.own = true) : a.brings n = 0 := by
  cases a <;> first | rfl | cases h

/-- A connection's step. -/
theorem Phase.sum_work_set {connections : List Phase} {c : Nat} {old : Phase} (new : Phase)
    (h : connections[c]? = some old) :
    ((connections.set c new).map Phase.work).sum + old.work =
      (connections.map Phase.work).sum + new.work := sum_map_set_slot _ new h

/-- A statement brings in what the pool's shutdown is worth, at the most. -/
theorem State.execute_work {n : Nat} {s t : State} {x : Stmt} (h : s.execute x = some t)
    (hworkers : s.pool.workers.length = n) (hjoinable : s.pool.joinable.length = n) :
    t.pool.work n ≤ s.pool.work n + (3 * n + 3) := by
  cases x with
  | setStopping | clearRunning | stopListener =>
      cases h
      exact Nat.le_add_right _ _
  | shutdownPool | notifyPool =>
      obtain ⟨pool, hpool, rfl⟩ := poolStep_eq_some.1 h
      have hwork := (ThreadPool.Step.of_step hpool).work hworkers hjoinable
      simp only [ThreadPool.Action.own, ThreadPool.Action.brings, Bool.false_eq_true, if_true,
        if_false] at hwork ⊢
      omega

/-- `stopping_` stays set. -/
theorem Step.stopping_mono {s t : State} {a : Action} (h : Step s a t) (hstop : s.stopping = true) :
    t.stopping = true := by
  have hexecute : ∀ {x : Stmt} {u : State}, s.execute x = some u → u.stopping = true := by
    intro x u hexec
    cases x with
    | setStopping | clearRunning | stopListener =>
        cases hexec
        first | rfl | exact hstop
    | shutdownPool | notifyPool =>
        obtain ⟨pool, -, rfl⟩ := State.poolStep_eq_some.1 hexec
        exact hstop
  cases h with
  | @closingStmt x rest u _ hexec => exact hexecute (u := u) hexec
  | @tearingDownStmt x rest u _ hexec => exact hexecute (u := u) hexec
  | @stopStmt i x rest u _ hexec => exact hexecute (u := u) hexec
  | _ => exact hstop

/-- `~ThreadPool` begins with a shutdown request and goes on inside the pool. -/
theorem State.poolDestructor_cases {s : State} {client : Client} {a : ThreadPool.Action Nat}
    (hclients : s.pool.clients = [client]) (ha : s.poolDestructor = some a) :
    client = .idle ∧ a = .shutdown 0 .destructor ∨ client ≠ .idle ∧ a.own = true := by
  cases client with
  | idle =>
      obtain rfl : ThreadPool.Action.shutdown 0 .destructor = a := by
        simpa [poolDestructor, hclients] using ha
      exact .inl ⟨rfl, rfl⟩
  | notifyOne => simp [poolDestructor, hclients] at ha
  | notifyAll | joining | blocked | joined =>
      refine .inr ⟨by simp, ?_⟩
      simp only [poolDestructor, hclients, List.getElem?_cons_zero, Option.some.injEq] at ha
      subst ha
      rfl

/-- The step uses up work if it is one of the threads' own, or brings in what it
is worth. -/
def Paid (n : Nat) (s : State) (a : Action) (t : State) : Prop :=
  (if a.own then 1 else 0) + t.work n ≤ s.work n + a.brings n

section Step

variable {n : Nat} {s t : State} {a : Action}

/-- A step of the pool is worth what the pool says. -/
theorem State.pool_work {pool : ThreadPool.State Nat} {b : ThreadPool.Action Nat}
    (hworkers : s.pool.workers.length = n) (hjoinable : s.pool.joinable.length = n)
    (hpool : s.pool.step b = some pool) :
    (if b.own then 1 else 0) + pool.work n ≤ s.pool.work n + b.brings n :=
  (ThreadPool.Step.of_step hpool).work hworkers hjoinable

/-- A step that takes a connection to another phase is paid for by the owner, the
pool and the connection. -/
theorem Paid.setPhase {c : Nat} {old new : Phase} {owner : Owner} {pool : ThreadPool.State Nat}
    {active : Nat} (hc : s.connections[c]? = some old)
    (h : (if a.own then 1 else 0) + (owner.work n pool.clients + pool.work n + new.work) ≤
      s.owner.work n s.pool.clients + s.pool.work n + old.work + a.brings n) :
    Paid n s a
      { s.setPhase c new with owner := owner, pool := pool, activeConnections := active } := by
  have hphase := Phase.sum_work_set new hc
  simp only [Paid, State.work, State.setPhase]
  omega

/-- `run` and `handle_connection` -/
theorem Step.paid_serving (hst : Step s a t) (ha : a.part = .serving) (hacc : Accounts s)
    (hloop : s.owner = .looping → t.owner ≠ .accepting) (hworkers : s.pool.workers.length = n)
    (hjoinable : s.pool.joinable.length = n) : Paid n s a t := by
  have hposition : ∀ {c : Nat} {p : Phase}, s.owner.position = some (c, p) →
      s.connections[c]? = some p := hacc.position _ _
  cases hst with
  | run hs | opened hs | openThrew hs | acceptThrew hs | handshakeSucceeded hs =>
      simp only [Paid, State.work, Action.own, Action.brings, hs, Owner.work, Bool.false_eq_true,
        if_true, if_false]
      omega
  | loopContinued hs _ _ => exact absurd rfl (hloop hs)
  | loopLeft hs _ =>
      simp only [Paid, State.work, Action.own, Action.brings, hs, Owner.work, shutdown,
        List.length_cons, List.length_nil, if_true]
      omega
  | accepted hs _ =>
      simp only [Paid, State.work, Action.own, Action.brings, hs, Owner.work, List.map_append,
        List.sum_append, List.map_cons, List.map_nil, List.sum_cons, List.sum_nil, Phase.work,
        if_true]
      omega
  | handshakeFailed hs | handshakeThrew hs | refused hs =>
      refine .setPhase (hposition (by rw [hs]; rfl)) ?_
      simp only [State.setPhase, Action.own, Action.brings, hs, Owner.work, Phase.work, if_true]
      omega
  | submitted hs _ hpool | submitThrew hs _ hpool =>
      refine .setPhase (hposition (by rw [hs]; rfl)) ?_
      have hwork := State.pool_work hworkers hjoinable hpool
      simp only [Action.own, Action.brings, hs, Owner.work, Phase.work, ThreadPool.Action.own,
        ThreadPool.Action.brings, Bool.false_eq_true, if_true, if_false] at hwork ⊢
      omega
  | notified hs hpool =>
      have hwork := State.pool_work hworkers hjoinable hpool
      simp only [Paid, State.work, Action.own, Action.brings, hs, Owner.work, ThreadPool.Action.own,
        ThreadPool.Action.brings, if_true] at hwork ⊢
      omega
  | caught hs =>
      have hnext : (if s.stopping then Owner.closing shutdown else .looping).work n s.pool.clients ≤
          (3 * n + 4) * 5 + 2 := by
        split <;> simp [Owner.work, shutdown]
      have howner : Owner.work n s.pool.clients .caught = (3 * n + 4) * 5 + 3 := rfl
      simp only [Paid, State.work, Action.own, Action.brings, hs, howner, if_true]
      omega
  | _ => cases ha

/-- The statements of `stop` and `shutdown`. -/
theorem Step.paid_stopping (hst : Step s a t) (ha : a.part = .stopping) (h : Placed s)
    (hworkers : s.pool.workers.length = n) (hjoinable : s.pool.joinable.length = n) :
    Paid n s a t := by
  cases hst with
  | @closingStmt x rest u hs hexec =>
      obtain ⟨-, hstoppers, hconn, -⟩ := State.execute_frame hexec
      have hwork := State.execute_work hexec hworkers hjoinable
      simp only [Paid, State.work, Action.own, Action.brings, hs, hstoppers, hconn, Owner.work,
        List.length_cons, Nat.mul_succ, if_true]
      omega
  | @tearingDownStmt x rest u hs hexec =>
      obtain ⟨-, hstoppers, hconn, -⟩ := State.execute_frame hexec
      have hwork := State.execute_work hexec hworkers hjoinable
      simp only [Paid, State.work, Action.own, Action.brings, hs, hstoppers, hconn, Owner.work,
        List.length_cons, Nat.mul_add, if_true]
      omega
  | tornDown hs =>
      have hmembers : Owner.work n s.pool.clients (.destroying destructionOrder) ≤
          (3 * n + 4) * 8 + 1 := by
        simp only [Owner.work, destructionOrder, declared, List.length_reverse, List.length_cons,
          List.length_nil]
        split <;> omega
      have howner : Owner.work n s.pool.clients (.tearingDown []) = (3 * n + 4) * 8 + 2 := by
        simp only [Owner.work, List.length_nil]
      simp only [Paid, State.work, Action.own, Action.brings, hs, if_true]
      omega
  | closed hs =>
      simp only [Paid, State.work, Action.own, Action.brings, hs, Owner.work, List.length_nil,
        if_true]
      omega
  | stopCalled _ =>
      simp only [Paid, State.work, Action.own, Action.brings, stop, List.map_append,
        List.sum_append, List.map_cons, List.map_nil, List.sum_cons, List.sum_nil, List.length_cons,
        List.length_nil, Bool.false_eq_true, if_false]
      omega
  | @stopStmt i x rest u hi hexec =>
      obtain ⟨howner, hstoppers, hconn, -⟩ := State.execute_frame hexec
      have hsame := State.execute_stop (h.stoppers _ (List.mem_of_getElem? hi)) hexec
      have hcall := sum_map_set_slot List.length rest hi
      simp only [Paid, State.work, Action.own, Action.brings, howner, hstoppers, hconn, hsame,
        List.length_cons, if_true] at hcall ⊢
      omega
  | _ => cases ha

/-- `~Server` and, inside it, `~ThreadPool`. -/
theorem Step.paid_teardown (hst : Step s a t) (ha : a.part = .teardown) (h : Placed s)
    (hworkers : s.pool.workers.length = n) (hjoinable : s.pool.joinable.length = n) :
    Paid n s a t := by
  obtain ⟨client, hclients, huses⟩ := h.client
  cases hst with
  | destroyCalled hs _ =>
      simp only [Paid, State.work, Action.own, Action.brings, hs, Owner.work, shutdown,
        List.length_cons, List.length_nil, Bool.false_eq_true, if_false]
      omega
  | @memberDestroyed m rest hs hm =>
      rw [hs] at huses
      have hidle : client = .idle := huses.2.resolve_right fun hhead => hm (Option.some.inj hhead.1)
      simp only [Paid, State.work, Action.own, Action.brings, hs, Owner.work, hclients, hidle,
        List.length_cons, Nat.mul_succ, if_true]
      omega
  | @poolDestroyed rest b pool hs hb hpool =>
      rw [hs] at huses
      obtain ⟨client', hclients', hnext⟩ :=
        State.poolDestructor_client hclients (huses.2.imp id And.right) hb hpool
      have hwork := State.pool_work hworkers hjoinable hpool
      cases State.poolDestructor_cases hclients hb with
      | inl hbegins =>
          obtain ⟨rfl, rfl⟩ := hbegins
          have hinside : client' ≠ .idle := by
            rintro rfl
            exact hnext
          simp only [Paid, State.work, Action.own, Action.brings, hs, hclients, hclients',
            Owner.work, List.length_cons, Nat.mul_succ, Nat.add_sub_cancel, ThreadPool.Action.own,
            ThreadPool.Action.brings, List.cons.injEq, hinside, reduceCtorEq, false_and,
            Bool.false_eq_true, if_true, if_false] at hwork ⊢
          omega
      | inr hgoes =>
          obtain ⟨hinside, hown⟩ := hgoes
          have hfree : b.brings n = 0 := by cases b <;> first | rfl | cases hown
          have howner : Owner.work n pool.clients
              (if b = .leave 0 then .destroying rest else s.owner) =
              s.owner.work n s.pool.clients := by
            rw [hs, hclients, hclients']
            split at hnext
            · next hleave =>
                subst hnext
                rw [if_pos hleave]
                simp [Owner.work, hinside]
            · next hleave =>
                have hstays : client' ≠ .idle := by
                  rintro rfl
                  exact hnext
                rw [if_neg hleave]
                simp [Owner.work, hinside, hstays]
          rw [if_pos hown, hfree] at hwork
          simp only [Paid, State.work, Action.own, Action.brings, howner, if_true]
          omega
  | destroyed hs =>
      rw [hs] at huses
      have hidle : client = .idle := huses.2.resolve_right fun hhead => by simp at hhead
      simp only [Paid, State.work, Action.own, Action.brings, hs, Owner.work, hclients, hidle,
        if_true]
      omega
  | _ => cases ha

/-- The workers. -/
theorem Step.paid_working (hst : Step s a t) (ha : a.part = .working)
    (hworkers : s.pool.workers.length = n) (hjoinable : s.pool.joinable.length = n) :
    Paid n s a t := by
  cases hst with
  | woken hpool =>
      have hwork := State.pool_work hworkers hjoinable hpool
      simp only [Paid, State.work, Action.own, Action.brings,
        ThreadPool.clients_of_worker hpool rfl, ThreadPool.Action.own, ThreadPool.Action.brings,
        Bool.false_eq_true, if_false] at hwork ⊢
      omega
  | locked hpool =>
      have hwork := State.pool_work hworkers hjoinable hpool
      simp only [Paid, State.work, Action.own, Action.brings,
        ThreadPool.clients_of_worker hpool rfl, ThreadPool.Action.own, ThreadPool.Action.brings,
        if_true] at hwork ⊢
      omega
  | routed _ _ => simp [Paid, Action.own]
  | runReturned _ hc | decremented _ hc =>
      refine .setPhase hc ?_
      simp only [State.setPhase, Action.own, Action.brings, Phase.work, if_true]
      omega
  | runThrew _ hc _ hpool =>
      refine .setPhase hc ?_
      have hwork := State.pool_work hworkers hjoinable hpool
      simp only [State.setPhase, Action.own, Action.brings, Phase.work,
        ThreadPool.clients_of_worker hpool rfl, ThreadPool.Action.own, ThreadPool.Action.brings,
        if_true] at hwork ⊢
      omega
  | taskReturned _ _ hpool =>
      have hwork := State.pool_work hworkers hjoinable hpool
      simp only [Paid, State.work, Action.own, Action.brings,
        ThreadPool.clients_of_worker hpool rfl, ThreadPool.Action.own, ThreadPool.Action.brings,
        if_true] at hwork ⊢
      omega
  | _ => cases ha

/-- **Step**: unless the owner goes on to `accept`, a step of the threads' own
uses up work, and the others bring in no more than they are worth. -/
theorem Step.work (hst : Step s a t) (h : Placed s) (hacc : Accounts s)
    (hloop : s.owner = .looping → t.owner ≠ .accepting) (hworkers : s.pool.workers.length = n)
    (hjoinable : s.pool.joinable.length = n) :
    (if a.own then 1 else 0) + t.work n ≤ s.work n + a.brings n := by
  cases ha : a.part with
  | serving => exact hst.paid_serving ha hacc hloop hworkers hjoinable
  | stopping => exact hst.paid_stopping ha h hworkers hjoinable
  | teardown => exact hst.paid_teardown ha h hworkers hjoinable
  | working => exact hst.paid_working ha hworkers hjoinable

end Step

/-! ## Up to the next wait -/

/-- The owner is about to call `accept` or `handshake`, or waits in it. -/
def Owner.waits : Owner → Bool
  | accepting | handshaking _ => true
  | _ => false

/-- What the owner has before it when `accept` or `handshake` returns. -/
def Owner.ahead (n : Nat) : Owner → Nat
  | accepting => (3 * n + 4) * 5 + 12
  | handshaking _ => (3 * n + 4) * 5 + 11
  | _ => 0

/-- What the threads have to do until `accept` or `handshake` is waited for. -/
def State.workToWait (n : Nat) (s : State) : Nat := s.work n - s.owner.ahead n

theorem State.ahead_le (n : Nat) (s : State) : s.owner.ahead n ≤ s.work n := by
  have howner : s.owner.ahead n ≤ s.owner.work n s.pool.clients := by
    cases s.owner with
    | accepting | handshaking => exact Nat.le_refl _
    | _ => exact Nat.zero_le _
  rw [State.work]
  omega

/-- An owner that waits goes on when the call returns. -/
theorem Step.owner_of_waits {s t : State} {a : Action} (hst : Step s a t)
    (haccept : ∀ b, a ≠ .accept b) (hhandshake : ∀ result, a ≠ .handshake result)
    (hs : s.owner.waits = true) : t.owner = s.owner := by
  cases hst with
  | accepted | acceptThrew => exact absurd rfl (haccept _)
  | handshakeSucceeded | handshakeFailed | handshakeThrew => exact absurd rfl (hhandshake _)
  | stopStmt _ hexec => exact (State.execute_frame hexec).1
  | stopCalled | woken | locked | routed | runReturned | runThrew | decremented
  | taskReturned => rfl
  | run howner | opened howner | openThrew howner | loopContinued howner | loopLeft howner
  | refused howner | submitted howner | submitThrew howner | notified howner | caught howner
  | closingStmt howner | closed howner | destroyCalled howner | tearingDownStmt howner
  | tornDown howner | memberDestroyed howner | poolDestroyed howner | destroyed howner =>
      rw [howner] at hs
      cases hs

/-- What is waited for is returned by nothing else. -/
theorem Step.ahead_le {s t : State} {a : Action} (hst : Step s a t) (haccept : ∀ b, a ≠ .accept b)
    (hhandshake : ∀ result, a ≠ .handshake result) (n : Nat) :
    s.owner.ahead n ≤ t.owner.ahead n := by
  by_cases hs : s.owner.waits = true
  · exact Nat.le_of_eq (congrArg _ (hst.owner_of_waits haccept hhandshake hs).symm)
  · cases howner : s.owner with
    | accepting | handshaking =>
        rw [howner] at hs
        exact absurd rfl hs
    | _ => exact Nat.zero_le _

/-- **Step**: whether or not the server has been stopped, its threads use up the
work that is left until `accept` or `handshake` is waited for. -/
theorem Step.workToWait {n : Nat} {s t : State} {a : Action} (hst : Step s a t) (h : Placed s)
    (hacc : Accounts s) (hown : a.own = true) (haccept : ∀ b, a ≠ .accept b)
    (hhandshake : ∀ result, a ≠ .handshake result) (hworkers : s.pool.workers.length = n)
    (hjoinable : s.pool.joinable.length = n) : t.workToWait n < s.workToWait n := by
  have hahead := hst.ahead_le haccept hhandshake n
  have hs := s.ahead_le n
  have ht := t.ahead_le n
  by_cases hgoes : s.owner = .looping ∧ t.owner = .accepting
  · -- the owner comes to its next wait
    obtain ⟨hlooping, haccepting⟩ := hgoes
    have henters := hst.enters (by rw [haccepting]; rfl)
    rw [haccepting, hlooping] at henters
    rcases henters with hsame | henters
    · cases hsame
    · cases henters
      cases hst with
      | loopContinued =>
          simp only [State.workToWait, State.work, hlooping, Owner.work, Owner.ahead]
          omega
      | loopLeft => cases haccepting
  · have hwork := hst.work h hacc (fun hlooping haccepting => hgoes ⟨hlooping, haccepting⟩) hworkers
      hjoinable
    rw [if_pos hown, Action.brings_of_own n hown] at hwork
    rw [State.workToWait, State.workToWait]
    omega

end HttpsServer.Server
