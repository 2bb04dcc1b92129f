import HttpsServer.Server.Jobs

/-!
# HttpsServer.Server.Teardown

Connection tasks and the destruction of the server's members.

`~Server` calls `shutdown`, which does not wait for the workers, and then
destroys the members in the reverse order of their declaration: the counter and
the router go before the pool, whose destructor is the only step that joins the
workers.  A task that is queued or running at that moment still uses both.
`teardown_safe` states this for all runs: no destroyed member is used where the
destruction begins after the last task, and some run uses one where it does not.
-/

namespace HttpsServer.Server

/-- A task step on a member that has been destroyed. -/
def State.usesDestroyed (s : State) : Action → Bool
  | .route _ => !s.alive .router
  | .decrement _ => !s.alive .activeConnections
  | _ => false

/-- Some connection's task is queued or running and has not been counted out. -/
def State.busy (s : State) : Bool := s.connections.any fun p => p == .pooled || p == .closing

/-- The destruction of the members begins while some task still needs them. -/
def State.destroysBusy (s : State) : Action → Bool
  | .destroyMember => s.owner == .destroying destructionOrder && s.busy
  | _ => false

/-- No step of the run is a task step on a destroyed member. -/
def UsesLiveMembers (n : Nat) (as : List Action) : Prop :=
  (machine n).Along (fun s a => s.usesDestroyed a = false) (.initial n) as

/-- The destruction of the members has begun. -/
def Owner.membersGone : Owner → Bool
  | destroying rest => rest != destructionOrder
  | destroyed => true
  | _ => false

instance (n : Nat) (as : List Action) : Decidable (UsesLiveMembers n as) :=
  inferInstanceAs (Decidable ((machine n).Along (fun s a => s.usesDestroyed a = false) _ as))

/-- Once members are gone, no task is left that needs them. -/
def QuietTeardown (s : State) : Prop := s.owner.membersGone = true → s.busy = false

theorem State.busy_of_getElem? {s : State} {c : Nat} {p : Phase} (hc : s.connections[c]? = some p)
    (hp : p = .pooled ∨ p = .closing) : s.busy = true := by
  rw [busy, List.any_eq_true]
  refine ⟨p, List.mem_of_getElem? hc, ?_⟩
  rcases hp with rfl | rfl <;> rfl

/-- A member that is destroyed is gone after the destruction began. -/
theorem State.membersGone_of_not_alive {s : State} {m : Member} (h : s.alive m = false) :
    s.owner.membersGone = true := by
  cases howner : s.owner with
  | destroying rest =>
      rw [Owner.membersGone, bne_iff_ne]
      rintro rfl
      rw [alive, howner] at h
      cases m <;> simp [destructionOrder, declared] at h
  | destroyed => rfl
  | _ => simp [alive, howner] at h

/-- A task step on a destroyed member is taken by a task that needs it. -/
theorem Step.busy_of_usesDestroyed {s t : State} {a : Action} (hst : Step s a t)
    (h : s.usesDestroyed a = true) : s.owner.membersGone = true ∧ s.busy = true := by
  cases hst with
  | routed _ hc =>
      refine ⟨State.membersGone_of_not_alive (m := .router) ?_,
        State.busy_of_getElem? hc (.inl rfl)⟩
      simpa [State.usesDestroyed] using h
  | decremented _ hc =>
      refine ⟨State.membersGone_of_not_alive (m := .activeConnections) ?_,
        State.busy_of_getElem? hc (.inr rfl)⟩
      simpa [State.usesDestroyed] using h
  | _ => contradiction

theorem Owner.inDestructor_of_membersGone {owner : Owner} (h : owner.membersGone = true) :
    owner.inDestructor = true := by
  cases owner <;> first | rfl | cases h

/-- In the destructor no task is submitted. -/
theorem Step.busy_back {s t : State} {a : Action} (hst : Step s a t)
    (hin : t.owner.inDestructor = true) (hbusy : t.busy = true) : s.busy = true := by
  cases hst with
  | tearingDownStmt _ hexec | stopStmt _ hexec =>
      obtain ⟨-, -, hconn, -⟩ := State.execute_frame hexec
      simpa [State.busy, hconn] using hbusy
  | runReturned _ hc | runThrew _ hc _ _ => exact State.busy_of_getElem? hc (.inl rfl)
  | decremented _ hc => exact State.busy_of_getElem? hc (.inr rfl)
  | destroyCalled | tornDown | memberDestroyed | poolDestroyed | destroyed | stopCalled | woken
  | locked | routed | taskReturned => exact hbusy
  | caught =>
      dsimp only at hin
      split at hin <;> cases hin
  | _ => cases hin

/-- The owner comes to a member by destroying the one before it. -/
theorem Step.membersGone_back {s t : State} {a : Action} (hst : Step s a t)
    (h : t.owner.membersGone = true) : s.owner.membersGone = true ∨
      a = .destroyMember ∧ s.owner = .destroying destructionOrder := by
  have hnext : ∀ rest, s.owner = .destroying rest → s.owner.membersGone = true ∨
      s.owner = .destroying destructionOrder := by
    intro rest howner
    by_cases hfirst : rest = destructionOrder
    · exact .inr (hfirst ▸ howner)
    · rw [howner, Owner.membersGone, bne_iff_ne]
      exact .inl hfirst
  cases hst with
  | memberDestroyed howner _ => exact (hnext _ howner).imp id fun hfirst => ⟨rfl, hfirst⟩
  | poolDestroyed howner _ _ => exact (hnext _ howner).imp id fun hfirst => ⟨rfl, hfirst⟩
  | destroyed howner => exact (hnext _ howner).imp id fun hfirst => ⟨rfl, hfirst⟩
  | stopStmt _ hexec => exact .inl ((State.execute_frame hexec).1 ▸ h)
  | stopCalled | woken | locked | routed | runReturned | runThrew | decremented | taskReturned =>
      exact .inl h
  | tornDown _ => simp [Owner.membersGone] at h
  | caught =>
      dsimp only at h
      split at h <;> cases h
  | _ => cases h

/-- A step keeps the teardown quiet, unless it begins with tasks left. -/
theorem QuietTeardown.step {s t : State} {a : Action} (h : QuietTeardown s)
    (hidle : s.destroysBusy a = false) (hst : Step s a t) : QuietTeardown t := by
  refine fun hgone => Bool.eq_false_iff.2 fun hbusy => ?_
  have hbefore := hst.busy_back (Owner.inDestructor_of_membersGone hgone) hbusy
  rcases hst.membersGone_back hgone with hgone' | ⟨rfl, howner⟩
  · rw [h hgone'] at hbefore
    cases hbefore
  · simp [State.destroysBusy, howner, hbefore] at hidle

/-- No task uses a destroyed member in a run in which the destruction of the
members begins only after the last task. -/
theorem usesLiveMembers_of_idle {n : Nat} {as : List Action} {t : State}
    (h : (machine n).run (.initial n) as = some t)
    (hidle : (machine n).Along (fun s a => s.destroysBusy a = false) (.initial n) as) :
    UsesLiveMembers n as := by
  refine hidle.imp (I := QuietTeardown) ?_ ?_ h nofun
  · exact fun s a t hs ha hst => hs.step ha (.of_step hst)
  · intro s a t hs _ hst
    by_contra huses
    have ⟨hgone, hbusy⟩ := (Step.of_step hst).busy_of_usesDestroyed (Bool.not_eq_false _ ▸ huses)
    exact absurd (hs hgone) (by simp [hbusy])

/-! ## A destructor that is called after the last task -/

/-- No task is left in `~Server`. -/
def IdleTeardown (s : State) : Prop := s.owner.inDestructor = true → s.busy = false

/-- Then no task comes to a destroyed member. -/
theorem IdleTeardown.usesDestroyed {s t : State} {a : Action} (h : IdleTeardown s)
    (hst : Step s a t) : s.usesDestroyed a = false := by
  by_contra huses
  obtain ⟨hgone, hbusy⟩ := hst.busy_of_usesDestroyed (Bool.not_eq_false _ ▸ huses)
  rw [h (Owner.inDestructor_of_membersGone hgone)] at hbusy
  cases hbusy

theorem Step.inDestructor_back {s t : State} {a : Action} (hst : Step s a t)
    (h : t.owner.inDestructor = true) : a = .destroy ∨ s.owner.inDestructor = true := by
  cases hst with
  | destroyCalled => exact .inl rfl
  | tearingDownStmt howner | tornDown howner | memberDestroyed howner | poolDestroyed howner
  | destroyed howner =>
      rw [howner]
      exact .inr rfl
  | stopStmt _ hexec => exact .inr ((State.execute_frame hexec).1 ▸ h)
  | stopCalled | woken | locked | routed | runReturned | runThrew | decremented | taskReturned =>
      exact .inr h
  | caught =>
      dsimp only at h
      split at h <;> cases h
  | _ => cases h

/-- A step leaves no task in the destructor, unless it calls the destructor. -/
theorem IdleTeardown.step {s t : State} {a : Action} (h : IdleTeardown s) (ha : a ≠ .destroy)
    (hst : Step s a t) : IdleTeardown t := by
  refine fun hin => Bool.eq_false_iff.2 fun hbusy => ?_
  have hbefore := hst.busy_back hin hbusy
  rw [h ((hst.inDestructor_back hin).resolve_left ha)] at hbefore
  cases hbefore

/-! ## A destruction that begins with tasks left -/

/-- Some run from here takes a task step on a destroyed member. -/
def Misused (n : Nat) (s : State) : Prop :=
  ∃ as t, (machine n).run s as = some t ∧
    ¬ (machine n).Along (fun s a => s.usesDestroyed a = false) s as

section Misused

variable {n : Nat} {s : State}

theorem Misused.of_step {t : State} {a : Action} (hst : (machine n).step s a = some t)
    (h : Misused n t) : Misused n s := by
  obtain ⟨as, u, hrun, hnot⟩ := h
  exact ⟨a :: as, u, Machine.run_cons_eq_some.2 ⟨t, hst, hrun⟩, fun halong => hnot (halong.2 t hst)⟩

/-- A task past `connection->run` decrements the counter. -/
theorem misused_of_closing (hgone : s.alive .activeConnections = false) {w c : Nat}
    (hw : s.serving w = some c) (hc : s.connections[c]? = some .closing) : Misused n s := by
  refine ⟨[.decrement w],
    { s.setPhase c .ended with activeConnections := s.activeConnections - 1 }, ?_,
    fun halong => ?_⟩
  · simp [Machine.run, machine, State.step, hw, hc]
  · have := halong.1
    simp [State.usesDestroyed, hgone] at this

/-- A task inside `connection->run` returns from it and decrements the
counter. -/
theorem misused_of_pooled (hgone : s.alive .activeConnections = false) {w c : Nat}
    (hw : s.serving w = some c) (hc : s.connections[c]? = some .pooled) : Misused n s := by
  have hst : (machine n).step s (.endRun w .returned) = some (s.setPhase c .closing) := by
    simp [machine, State.step, hw, hc, State.endRun, RunEnd.throws]
  refine .of_step hst (misused_of_closing (w := w) (c := c) hgone hw ?_)
  exact List.getElem?_set_self (List.getElem?_eq_some_iff.1 hc).1

/-- A worker about to lock `mutex_` takes a queued task. -/
theorem misused_of_ready (h : Jobs s) (hgone : s.alive .activeConnections = false) {w : Nat}
    (hw : s.pool.workers[w]? = some .ready) (htasks : s.pool.tasks ≠ []) : Misused n s := by
  obtain ⟨task, rest, hcons⟩ := List.exists_cons_of_ne_nil htasks
  have hst : (machine n).step s (.lock w) =
      some { s with
        pool := { s.pool with
          tasks := rest
          workers := s.pool.workers.set w (.running task)
          dequeued := s.pool.dequeued ++ [task] } } := by
    simp [machine, State.step, State.poolStep, ThreadPool.State.step, hw,
      ThreadPool.State.workerLoop, hcons]
  refine .of_step hst (misused_of_pooled (w := w) (c := task.callable) hgone ?_ ?_)
  · have hset : (s.pool.workers.set w (.running task))[w]? = some (.running task) :=
      List.getElem?_set_self (List.getElem?_eq_some_iff.1 hw).1
    simp [State.serving, hset]
  · exact h.queued task (by rw [hcons]; exact List.mem_cons_self)

end Misused

/-- A task in the hands of a worker, past the router or not, reaches the
destroyed counter. -/
theorem misused_of_serving {n : Nat} {s : State} (hgone : s.alive .activeConnections = false)
    {w c : Nat} {p : Phase} (hw : s.serving w = some c) (hc : s.connections[c]? = some p)
    (hp : p = .pooled ∨ p = .closing) : Misused n s := by
  cases hp with
  | inl hpooled => exact misused_of_pooled hgone hw (hpooled ▸ hc)
  | inr hclosing => exact misused_of_closing hgone hw (hclosing ▸ hc)

/-- With a task in the queue some worker comes to take one. -/
theorem misused_of_queued {n : Nat} (hn : 0 < n) {s : State} (h : (machine n).Reachable s)
    (hgone : s.alive .activeConnections = false) (htasks : s.pool.tasks ≠ []) : Misused n s := by
  have hjobs := Jobs.of_reachable h
  have hdrain := ThreadPool.Drain.of_reachable (pool_reachable h)
  have hlt : 0 < s.pool.workers.length := hdrain.workers_length ▸ hn
  have hself : ∀ a, (s.pool.workers.set 0 a)[(0 : Nat)]? = some a := fun a =>
    List.getElem?_set_self hlt
  cases hworker : s.pool.workers[0] with
  | ready =>
      have hw : s.pool.workers[(0 : Nat)]? = some .ready := by
        rw [List.getElem?_eq_getElem hlt, hworker]
      exact misused_of_ready hjobs hgone hw htasks
  | asleep =>
      have hw : s.pool.workers[(0 : Nat)]? = some .asleep := by
        rw [List.getElem?_eq_getElem hlt, hworker]
      have hst : (machine n).step s (.wake 0) =
          some { s with pool := { s.pool with workers := s.pool.workers.set 0 .ready } } := by
        simp [machine, State.step, State.poolStep, ThreadPool.State.step, hw]
      exact .of_step hst (misused_of_ready (Jobs.of_reachable (h.step hst)) hgone (hself _) htasks)
  | running task =>
      have hw : s.pool.workers[(0 : Nat)]? = some (.running task) := by
        rw [List.getElem?_eq_getElem hlt, hworker]
      have hserving : s.serving 0 = some task.callable := by simp [State.serving, hw]
      have hheld : task ∈ s.pool.held := ThreadPool.State.mem_held_iff.2 ⟨0, hw⟩
      obtain ⟨p, hc, hserved⟩ := hjobs.held task hheld
      cases p with
      | pooled => exact misused_of_serving hgone hserving hc (.inl rfl)
      | closing => exact misused_of_serving hgone hserving hc (.inr rfl)
      | ended =>
          -- the worker returns to the queue
          have hst : (machine n).step s (.taskReturns 0) =
              some { s with pool := s.pool.finish 0 task .returned } := by
            simp [machine, State.step, hserving, hc, State.poolStep, ThreadPool.State.step, hw]
          exact .of_step hst
            (misused_of_ready (Jobs.of_reachable (h.step hst)) hgone (hself _) htasks)
      | handshaking => contradiction
      | refused => contradiction
      | abandoned => contradiction
  | exited =>
      have hexited : s.pool.Exited 0 := by
        rw [ThreadPool.State.Exited, List.getElem?_eq_getElem hlt, hworker]
      exact absurd (hdrain.exited 0 hexited).2 htasks

/-- Whatever task is left when the counter is destroyed can reach it. -/
theorem misused_of_busy {n : Nat} (hn : 0 < n) {s : State} (h : (machine n).Reachable s)
    (hgone : s.alive .activeConnections = false) (hbusy : s.busy = true) : Misused n s := by
  rw [State.busy, List.any_eq_true] at hbusy
  obtain ⟨p, hmem, hp⟩ := hbusy
  obtain ⟨c, hc⟩ := List.mem_iff_getElem?.1 hmem
  simp only [Bool.or_eq_true, beq_iff_eq] at hp
  obtain ⟨task, htask, rfl⟩ := List.mem_map.1 ((Jobs.of_reachable h).job c p hc hp)
  cases List.mem_append.1 htask with
  | inl hheld =>
      obtain ⟨w, hw⟩ := ThreadPool.State.mem_held_iff.1 hheld
      rw [ThreadPool.State.Runs] at hw
      have hserving : s.serving w = some task.callable := by simp [State.serving, hw]
      exact misused_of_serving hgone hserving hc hp
  | inr hqueued => exact misused_of_queued hn h hgone (List.ne_nil_of_mem hqueued)

/-- **The members outlive their tasks exactly where the destruction begins
after the last task**: a run in which it always does takes no task step on a
destroyed member; and from a state in which it begins with a task left, some
run does. -/
theorem teardown_safe {n : Nat} (hn : 0 < n) :
    (∀ as t, (machine n).run (.initial n) as = some t →
      (machine n).Along (fun s a => s.destroysBusy a = false) (.initial n) as →
      UsesLiveMembers n as) ∧
    ∀ s, (machine n).Reachable s → s.destroysBusy .destroyMember = true → Misused n s := by
  refine ⟨fun as t hrun hidle => usesLiveMembers_of_idle hrun hidle, fun s h hbusy => ?_⟩
  rw [State.destroysBusy, Bool.and_eq_true, beq_iff_eq] at hbusy
  obtain ⟨howner, hbusy⟩ := hbusy
  -- the counter is the first member to go
  have hst : (machine n).step s .destroyMember =
      some { s with owner := .destroying destructionOrder.tail } := by
    simp [machine, State.step, howner, destructionOrder, declared, State.destroyMember]
  exact .of_step hst (misused_of_busy hn (h.step hst) rfl hbusy)

/-- A connection is accepted and its task queued. -/
def queuedRun : List Action :=
  [.run, .openListener none, .loopTest, .accept true, .handshake .succeeded, .submit,
    .notifyOne none]

/-- The server is stopped, `run` returns, and `~Server` comes to its first
member. -/
def stoppedRun : List Action :=
  [.callStop, .stopStmt 0, .stopStmt 0, .stopStmt 0, .loopTest] ++
    List.replicate 6 .shutdownStmt ++ [.destroy] ++ List.replicate 6 .shutdownStmt

/-- The connection is served before the server is stopped, or is still in the
queue. -/
theorem teardown_safe_served :
    UsesLiveMembers 1 (queuedRun ++
        [.lock 0, .route 0, .endRun 0 .returned, .decrement 0, .taskReturns 0] ++ stoppedRun ++
        [.destroyMember]) ∧
      ∃ s, (machine 1).run (.initial 1) (queuedRun ++ stoppedRun) = some s ∧ Misused 1 s := by
  obtain ⟨hlive, hmisused⟩ := teardown_safe (n := 1) (by decide)
  exact ⟨hlive _ _ rfl (by decide), _, rfl, hmisused _ ⟨queuedRun ++ stoppedRun, rfl⟩ (by decide)⟩

/-- The server stops with the connection still in the queue.  A worker takes it
after the counter has been destroyed, and decrements the counter. -/
theorem not_usesLiveMembers_queued :
    ¬ ∀ (n : Nat) (as : List Action) (t : State), (machine n).run (.initial n) as = some t →
      UsesLiveMembers n as := by
  intro h
  have hlive := h 1 (queuedRun ++ stoppedRun ++
    [.destroyMember, .lock 0, .endRun 0 .returned, .decrement 0]) _ rfl
  revert hlive
  decide

end HttpsServer.Server
