import HttpsServer.Server.Teardown
import HttpsServer.Server.Work

/-!
# HttpsServer.Server.Completion

A server that has been stopped comes to rest.

`stop` sets flags and closes the listener; the rest is up to the threads.  Three
calls can keep a thread waiting, each for the network: `accept`, `handshake` and
`connection->run`.  Nothing else holds up a stopped server (`Waiting.of_stuck`),
and when these return it comes to rest with no connection left over
(`shutdown_completes`).
-/

namespace HttpsServer.Server

open ThreadPool (Client Worker)

/-! ## Waiting for the network -/

/-- Worker `w` is inside `connection->run`. -/
def State.Serves (s : State) (w : Nat) : Prop :=
  ∃ c, s.serving w = some c ∧ s.connections[c]? = some .pooled

/-- The owner is outside every call, waits for the network, or joins a worker
that does. -/
def State.OwnerWaits (s : State) : Prop :=
  match s.owner with
  | .outside | .destroyed | .accepting | .handshaking _ => True
  | .destroying (.threadPool :: _) => ∃ w, s.pool.clients = [.blocked w] ∧ s.Serves w
  | _ => False

/-- Every thread is done or waits for the network. -/
structure Waiting (s : State) : Prop where
  owner : s.OwnerWaits
  stoppers : ∀ rest ∈ s.stoppers, rest = []
  workers : ∀ (w : Nat) (worker : Worker Nat), s.pool.workers[w]? = some worker →
    worker = (if s.pool.stopping then .exited else .asleep) ∨ s.Serves w
  tasks : s.pool.tasks = [] ∨ ∀ w < s.pool.workers.length, s.Serves w

/-- Nothing is left to be done: the owner and the callers of `stop` are outside
the server, every accepted task has been run, every connection has ended or
has been left by an exception, and the counter tells the latter. -/
structure Rested (s : State) : Prop where
  owner : s.owner = .outside ∨ s.owner = .destroyed
  stoppers : ∀ rest ∈ s.stoppers, rest = []
  pool : ThreadPool.Quiescent s.pool
  connections : ∀ p ∈ s.connections, p.over = true
  counted : s.activeConnections = s.connections.countP (· == .abandoned)

section Rest

variable {n : Nat} {s : State}

theorem State.Serves.running {w : Nat} (h : s.Serves w) {worker : Worker Nat}
    (hw : s.pool.workers[w]? = some worker) : ∃ task, worker = .running task := by
  obtain ⟨c, hserving, -⟩ := h
  obtain ⟨task, hruns, -⟩ := State.runs_of_serving hserving
  exact ⟨task, Option.some.inj (hw.symm.trans hruns)⟩

/-- A thread that waits for the network takes no other step. -/
theorem Waiting.stuck (h : Waiting s) :
    (machine n).Stuck (fun a => a.own = true ∧ a.waits = false) s := by
  rintro a ⟨hown, hwaits⟩
  have howner := h.owner
  have hworker : ∀ {w : Nat} {worker : Worker Nat}, s.pool.workers[w]? = some worker →
      worker = .exited ∨ worker = .asleep ∨ s.Serves w := by
    intro w worker hw
    cases h.workers w worker hw with
    | inl heq =>
        rw [heq]
        split
        · exact .inl rfl
        · exact .inr (.inl rfl)
    | inr hserves => exact .inr (.inr hserves)
  -- the connection of a busy worker is still being served
  have hpooled : ∀ {w c : Nat} {p : Phase}, s.serving w = some c → s.connections[c]? = some p →
      p = .pooled := by
    intro w c p hw hc
    obtain ⟨task, hruns, -⟩ := State.runs_of_serving hw
    rcases hworker hruns with hexited | hasleep | ⟨c', hw', hc'⟩
    · cases hexited
    · cases hasleep
    · obtain rfl : c = c' := Option.some.inj (hw.symm.trans hw')
      exact Option.some.inj (hc.symm.trans hc')
  refine Option.eq_none_iff_forall_ne_some.2 fun t hst => ?_
  cases Step.of_step hst with
  | run | destroyCalled | stopCalled | woken | routed => cases hown
  | accepted | acceptThrew | handshakeSucceeded | handshakeFailed | handshakeThrew | runReturned
  | runThrew => cases hwaits
  | opened hs | openThrew hs | loopContinued hs _ _ | loopLeft hs _ | refused hs | submitted hs _ _
  | submitThrew hs _ _ | notified hs _ | caught hs | closingStmt hs _ | closed hs
  | tearingDownStmt hs _ | tornDown hs | destroyed hs =>
      rw [State.OwnerWaits, hs] at howner
      exact howner
  | @memberDestroyed m rest hs hm =>
      rw [State.OwnerWaits, hs] at howner
      cases m <;> first | exact howner | exact hm rfl
  | @poolDestroyed rest b pool hs ha hpool =>
      rw [State.OwnerWaits, hs] at howner
      obtain ⟨w, hclients, hserves⟩ := howner
      obtain rfl : ThreadPool.Action.join 0 = b := by simpa [State.poolDestructor, hclients] using ha
      cases ThreadPool.Step.of_step hpool with
      | loopEnded hc _ | skipped hc _ | joinCalled hc _ => simp [hclients] at hc
      | joinReturned hc hexited =>
          obtain rfl : w = _ := by simpa [hclients] using hc
          obtain ⟨task, htask⟩ := hserves.running hexited
          cases htask
  | @stopStmt i x rest u hi hexec =>
      have hdone := h.stoppers _ (List.mem_of_getElem? hi)
      cases hdone
  | locked hpool =>
      cases ThreadPool.Step.of_step hpool with
      | slept hw _ _ | exited hw _ _ | took hw _ =>
          rcases hworker hw with hexited | hasleep | hserves
          · cases hexited
          · cases hasleep
          · obtain ⟨task, htask⟩ := hserves.running hw
            cases htask
  | decremented hw hc | taskReturned hw hc _ => cases hpooled hw hc

/-- The statements of `stop` can always be executed. -/
theorem State.execute_stop_isSome {x : Stmt} (hx : x ∈ stop) : ∃ t, s.execute x = some t := by
  simp only [stop, List.mem_cons, List.not_mem_nil, or_false] at hx
  rcases hx with rfl | rfl | rfl <;> exact ⟨_, rfl⟩

/-- So can those of `shutdown`, in their order. -/
theorem State.execute_shutdown_isSome {x : Stmt} {rest : List Stmt}
    (hsuffix : x :: rest <:+ shutdown) (hclients : s.pool.clients = [pendingClient (x :: rest)]) :
    ∃ t, s.execute x = some t := by
  rcases cons_suffix_shutdown hsuffix with ⟨rfl, rfl⟩ | ⟨rfl, rfl⟩ | ⟨rfl, rfl⟩ | ⟨rfl, rfl⟩ | ⟨rfl, rfl⟩
  all_goals simp [State.execute, State.poolStep, ThreadPool.State.step, hclients, pendingClient]

/-- `~ThreadPool` goes on unless it joins a worker that has not left. -/
theorem State.destroyMember_pool_eq_none {rest : List Member} {client : Client}
    (hclients : s.pool.clients = [client]) (huses : client = .idle ∨ InPoolDestructor client)
    (h : s.destroyMember (.threadPool :: rest) = none) : ∃ w, client = .blocked w := by
  cases client with
  | idle | notifyAll | joined =>
      simp [State.destroyMember, State.poolDestructor, State.poolStep, ThreadPool.State.step,
        hclients] at h
  | notifyOne => cases huses <;> contradiction
  | joining i =>
      simp [State.destroyMember, State.poolDestructor, State.poolStep, ThreadPool.State.step,
        hclients] at h
  | blocked w => exact ⟨w, rfl⟩

/-- An owner that takes no step but the end of `accept` or `handshake`. -/
theorem Placed.owner_of_stuck (h : Placed s)
    (hstuck : (machine n).Stuck (fun a => a.own = true ∧ a.waits = false) s) :
    s.OwnerWaits ∧ s.pool.clients = [.idle] ∨
      ∃ rest w, s.owner = .destroying (.threadPool :: rest) ∧ s.pool.clients = [.blocked w] := by
  obtain ⟨client, hclients, huses⟩ := h.client
  have hnone : ∀ a : Action, a.own = true → a.waits = false → s.step a = none :=
    fun a hown hwaits => hstuck a ⟨hown, hwaits⟩
  cases howner : s.owner with
  | outside | destroyed | accepting | handshaking =>
      rw [howner] at huses
      exact .inl ⟨by rw [State.OwnerWaits, howner]; trivial, by rw [hclients, huses]⟩
  | opening =>
      have := hnone (.openListener none) rfl rfl
      simp [State.step, howner] at this
  | looping =>
      have := hnone .loopTest rfl rfl
      simp [State.step, howner] at this
  | refusing c =>
      have := hnone .refuse rfl rfl
      simp [State.step, howner] at this
  | submitting c =>
      rw [howner] at huses
      have := hnone .submit rfl rfl
      simp [State.step, howner, State.submit, State.poolStep, ThreadPool.State.step, hclients,
        show client = .idle from huses] at this
  | notifying =>
      rw [howner] at huses
      have hclient : client = .notifyOne := huses
      by_cases hasleep : s.pool.workers.any Worker.isAsleep = true
      · obtain ⟨worker, hworker, hsleeps⟩ := List.any_eq_true.1 hasleep
        obtain ⟨w, hw⟩ := List.mem_iff_getElem?.1 hworker
        cases worker with
        | asleep =>
            have := hnone (.notifyOne (some w)) rfl rfl
            simp [State.step, howner, State.poolStep, ThreadPool.State.step,
              ThreadPool.State.notifyOne, hclients, hclient, hw] at this
        | ready | running | exited => cases hsleeps
      · have := hnone (.notifyOne none) rfl rfl
        simp [State.step, howner, State.poolStep, ThreadPool.State.step,
          ThreadPool.State.notifyOne, hclients, hclient, hasleep] at this
  | caught =>
      have := hnone .catchAll rfl rfl
      simp [State.step, howner] at this
  | closing rest | tearingDown rest =>
      rw [howner] at huses
      obtain ⟨hsuffix, rfl⟩ := huses
      have hstmt := hnone .shutdownStmt rfl rfl
      cases rest with
      | nil => simp [State.step, howner] at hstmt
      | cons x rest =>
          obtain ⟨t, ht⟩ := State.execute_shutdown_isSome hsuffix hclients
          simp [State.step, howner, ht] at hstmt
  | destroying rest =>
      rw [howner] at huses
      have hmember : s.destroyMember rest = none := by
        simpa [State.step, howner] using hnone .destroyMember rfl rfl
      cases rest with
      | nil => cases hmember
      | cons m rest =>
          cases m with
          | threadPool =>
              obtain ⟨w, rfl⟩ := State.destroyMember_pool_eq_none hclients
                (huses.2.imp id And.right) hmember
              exact .inr ⟨rest, w, rfl, hclients⟩
          | _ => cases hmember

/-- **Where no thread takes a step but the end of a wait, every thread is done or
waits.** -/
theorem Waiting.of_stuck (h : (machine n).Reachable s)
    (hstuck : (machine n).Stuck (fun a => a.own = true ∧ a.waits = false) s) : Waiting s := by
  have hplaced := Placed.of_reachable h
  have hjobs := Jobs.of_reachable h
  have hpool := pool_reachable h
  have hdrain := ThreadPool.Drain.of_reachable hpool
  have hattended := ThreadPool.Attended.of_reachable hpool
  have howner := hplaced.owner_of_stuck hstuck
  have hclient : ∃ client, s.pool.clients = [client] ∧
      (client = .idle ∨ ∃ w, client = .blocked w) := by
    rcases howner with ⟨-, hidle⟩ | ⟨rest, w, -, hblocked⟩
    · exact ⟨_, hidle, .inl rfl⟩
    · exact ⟨_, hblocked, .inr ⟨w, rfl⟩⟩
  obtain ⟨client, hclients, hclient⟩ := hclient
  have hnone : ∀ a : Action, a.own = true → a.waits = false → s.step a = none :=
    fun a hown hwaits => hstuck a ⟨hown, hwaits⟩
  have hready : ∀ w : Nat, s.pool.workers[w]? ≠ some Worker.ready := by
    intro w hw
    have := hnone (.lock w) rfl rfl
    simp [State.step, State.poolStep, ThreadPool.State.step, hw] at this
  have hrunning : ∀ (w : Nat) (task : ThreadPool.Task Nat),
      s.pool.workers[w]? = some (.running task) → s.Serves w := by
    intro w task hw
    have hserving : s.serving w = some task.callable := by simp [State.serving, hw]
    obtain ⟨p, hc, hserved⟩ := hjobs.held task (ThreadPool.State.mem_held_iff.2 ⟨w, hw⟩)
    cases p with
    | pooled => exact ⟨_, hserving, hc⟩
    | closing =>
        have := hnone (.decrement w) rfl rfl
        simp [State.step, hserving, hc] at this
    | ended =>
        have := hnone (.taskReturns w) rfl rfl
        simp [State.step, hserving, hc, State.poolStep, ThreadPool.State.step, hw] at this
    | handshaking | refused | abandoned => cases hserved
  -- nobody sleeps through the shutdown of the pool
  have hasleep : ∀ w : Nat, s.pool.workers[w]? = some .asleep → s.pool.stopping = false := by
    intro w hw
    refine Bool.eq_false_iff.2 fun hstop => ?_
    obtain ⟨c, call, hc⟩ := hattended.stopping ⟨w, hw⟩ hstop
    rw [hclients] at hc
    have hmem := List.mem_singleton.1 (List.mem_of_getElem? hc)
    rcases hclient with rfl | ⟨w, rfl⟩ <;> cases hmem
  have hworkers : ∀ (w : Nat) (worker : Worker Nat), s.pool.workers[w]? = some worker →
      worker = (if s.pool.stopping then .exited else .asleep) ∨ s.Serves w := by
    intro w worker hw
    cases worker with
    | ready => exact absurd hw (hready w)
    | asleep =>
        rw [hasleep w hw]
        exact .inl rfl
    | exited =>
        rw [(hdrain.exited w hw).1]
        exact .inl rfl
    | running task => exact .inr (hrunning w task hw)
  refine ⟨?_, fun rest hrest => ?_, hworkers, ?_⟩
  · rcases howner with ⟨hwaits, -⟩ | ⟨rest, w, howner, hblocked⟩
    · exact hwaits
    · -- the worker that is joined has not left
      obtain ⟨hstop, hlt⟩ : s.pool.stopping = true ∧ w < n :=
        ThreadPool.closes_of_reachable hpool (.blocked w) (by rw [hblocked]; exact List.mem_cons_self)
      have hw := List.getElem?_eq_getElem (hdrain.workers_length ▸ hlt : w < s.pool.workers.length)
      rw [State.OwnerWaits, howner]
      cases hworkers w _ hw with
      | inr hserves => exact ⟨w, hblocked, hserves⟩
      | inl hexited =>
          rw [hstop, if_pos rfl] at hexited
          have := hnone .destroyMember rfl rfl
          simp [State.step, howner, State.destroyMember, State.poolDestructor, State.poolStep,
            ThreadPool.State.step, ThreadPool.State.joinReturns, hblocked, hw, hexited] at this
  · cases rest with
    | nil => rfl
    | cons x rest =>
        obtain ⟨i, hi⟩ := List.mem_iff_getElem?.1 hrest
        obtain ⟨t, ht⟩ :=
          State.execute_stop_isSome (s := s) ((hplaced.stoppers _ hrest).subset List.mem_cons_self)
        have := hnone (.stopStmt i) rfl rfl
        simp [State.step, hi, ht] at this
  · by_cases htasks : s.pool.tasks = []
    · exact .inl htasks
    · refine .inr fun w hlt => ?_
      obtain ⟨worker, hw⟩ : ∃ worker, s.pool.workers[w]? = some worker :=
        ⟨_, List.getElem?_eq_getElem hlt⟩
      cases worker with
      | ready => exact absurd hw (hready w)
      | running task => exact hrunning w task hw
      | exited => exact absurd (hdrain.exited w hw).2 htasks
      | asleep =>
          -- a sleeper leaves no task behind that nobody comes for
          have hlen := hattended.tasks ⟨w, hw⟩
          have hones : s.pool.notifications = 0 := by
            refine List.countP_eq_zero.2 fun client' hmem => ?_
            rw [hclients, List.mem_singleton] at hmem
            rcases hclient with rfl | ⟨v, rfl⟩ <;> (subst hmem; exact Bool.false_ne_true)
          have hnobody : s.pool.readyWorkers = 0 := by
            refine List.countP_eq_zero.2 fun worker hmem hisready => ?_
            obtain ⟨v, hv⟩ := List.mem_iff_getElem?.1 hmem
            cases worker with
            | ready => exact hready v hv
            | asleep | running | exited => cases hisready
          exact absurd (List.length_eq_zero_iff.1 (by omega)) htasks

/-! ## Rest -/

/-- A worker that serves a connection may come to the end of it. -/
theorem State.Serves.endRun {w : Nat} (h : s.Serves w) : s.step (.endRun w .returned) ≠ none := by
  obtain ⟨c, hserving, hc⟩ := h
  simp [State.step, hserving, hc, State.endRun, RunEnd.throws]

theorem Rested.atRest (h : Rested s) : (machine n).Stuck (fun a => a.own = true) s := by
  have hworker : ∀ {w : Nat} {worker : Worker Nat}, s.pool.workers[w]? = some worker →
      worker = (if s.pool.stopping then .exited else .asleep) :=
    fun hw => h.pool.workers _ (List.mem_of_getElem? hw)
  have hwaiting : Waiting s := by
    refine ⟨?_, h.stoppers, fun w worker hw => .inl (hworker hw), .inl h.pool.tasks⟩
    rcases h.owner with hs | hs <;> (rw [State.OwnerWaits, hs]; trivial)
  intro a hown
  cases hwaits : a.waits with
  | false => exact hwaiting.stuck a ⟨hown, hwaits⟩
  | true =>
      refine Option.eq_none_iff_forall_ne_some.2 fun t hst => ?_
      cases Step.of_step hst with
      | accepted hs _ | acceptThrew hs | handshakeSucceeded hs | handshakeFailed hs
      | handshakeThrew hs =>
          rcases h.owner with howner | howner <;> (rw [hs] at howner; cases howner)
      | runReturned hw _ | runThrew hw _ _ _ =>
          obtain ⟨task, hruns, -⟩ := State.runs_of_serving hw
          have hmoved := hworker hruns
          split at hmoved <;> cases hmoved
      | _ => cases hwaits

/-- **Where no thread takes a step of its own, nothing is left to be done.** -/
theorem Rested.of_stuck (hn : 0 < n) (h : (machine n).Reachable s)
    (hstuck : (machine n).Stuck (fun a => a.own = true) s) : Rested s := by
  have hwaiting := Waiting.of_stuck h fun a ha => hstuck a ha.1
  have hpool := pool_reachable h
  have hdrain := ThreadPool.Drain.of_reachable hpool
  have hserves : ∀ w, ¬ s.Serves w := fun w hw => hw.endRun (hstuck (.endRun w .returned) rfl)
  have howner : s.owner = .outside ∨ s.owner = .destroyed := by
    have hwaits := hwaiting.owner
    rw [State.OwnerWaits] at hwaits
    split at hwaits
    · exact .inl ‹_›
    · exact .inr ‹_›
    · next hs =>
        have := hstuck (.accept false) rfl
        simp [machine, State.step, hs] at this
    · next hs =>
        have := hstuck (.handshake .failed) rfl
        simp [machine, State.step, hs] at this
    · obtain ⟨w, -, hw⟩ := hwaits
      exact absurd hw (hserves w)
    · exact hwaits.elim
  have hworkers : ∀ worker ∈ s.pool.workers,
      worker = if s.pool.stopping then .exited else .asleep := by
    intro worker hmem
    obtain ⟨w, hw⟩ := List.mem_iff_getElem?.1 hmem
    exact (hwaiting.workers w worker hw).resolve_right (hserves w)
  have htasks : s.pool.tasks = [] :=
    hwaiting.tasks.resolve_right fun hall => hserves 0 (hall 0 (hdrain.workers_length ▸ hn))
  have hheld : s.pool.held = [] := by
    rw [List.eq_nil_iff_forall_not_mem]
    intro task htask
    obtain ⟨w, hw⟩ := ThreadPool.State.mem_held_iff.1 htask
    have hmoved := hworkers _ (List.mem_of_getElem? hw)
    split at hmoved <;> cases hmoved
  have hplaced := Placed.of_reachable h
  have hacc := Accounts.of_reachable h
  have hconnections : ∀ p ∈ s.connections, p.over = true := by
    intro p hmem
    obtain ⟨c, hc⟩ := List.mem_iff_getElem?.1 hmem
    have hnojob : ¬ (p = .pooled ∨ p = .closing) := by
      intro hp
      have hjob := (Jobs.of_reachable h).job c p hc hp
      rw [State.jobs, hheld, htasks] at hjob
      cases hjob
    rcases hplaced.owned c p hc with hover | hpooled | hclosing | hposition
    · exact hover
    · exact absurd (.inl hpooled) hnojob
    · exact absurd (.inr hclosing) hnojob
    · rcases howner with hs | hs <;> (rw [hs] at hposition; cases hposition)
  refine ⟨howner, hwaiting.stoppers, ⟨htasks, ?_, fun client hmem => ?_, hworkers⟩, hconnections, ?_⟩
  · exact (ThreadPool.Fifo.of_reachable hpool).finished_perm htasks hheld
  · obtain ⟨client', hclients, huses⟩ := hplaced.client
    rw [hclients, List.mem_singleton] at hmem
    rcases howner with hs | hs <;> (rw [hs] at huses; exact hmem.trans huses)
  · have hlive : s.live = 0 := List.countP_eq_zero.2 fun p hp => by simp [hconnections p hp]
    rw [hacc.count, State.counted_eq, hlive, Nat.zero_add]

end Rest

/-- **A stopped server comes to rest.**  From the moment `stopping_` is set, its
threads take no more steps of their own than the work that is left and that
calls from outside bring in.  Nothing holds them up but `accept`, `handshake` and
`connection->run`; and when these return, the owner comes out of `run` or of the
destructor, every accepted task has been run, and no connection is left over. -/
theorem shutdown_completes {n : Nat} (hn : 0 < n) {s : State} (h : (machine n).Reachable s)
    (hstop : s.stopping = true) :
    (∀ as t, (machine n).run s as = some t →
      as.countP Action.own + t.work n ≤ s.work n + (as.map (Action.brings n)).sum) ∧
    ((machine n).Stuck (fun a => a.own = true ∧ a.waits = false) s ↔ Waiting s) ∧
    ((machine n).Stuck (fun a => a.own = true) s ↔ Rested s) ∧
    ∃ as t, (machine n).run s as = some t ∧ (∀ a ∈ as, a.own = true) ∧ Rested t := by
  have hstep : ∀ u a v, (machine n).Reachable u ∧ u.stopping = true →
      (machine n).step u a = some v →
      ((machine n).Reachable v ∧ v.stopping = true) ∧
        (if a.own then 1 else 0) + v.work n ≤ u.work n + a.brings n := by
    intro u a v hu huv
    have hst := Step.of_step huv
    have hdrain := ThreadPool.Drain.of_reachable (pool_reachable hu.1)
    exact ⟨⟨hu.1.step huv, hst.stopping_mono hu.2⟩,
      hst.work (.of_reachable hu.1) (.of_reachable hu.1) (hst.not_accepting_of_stopping hu.2)
        hdrain.workers_length hdrain.joinable_length⟩
  refine ⟨fun as t hrun => ?_, ⟨.of_stuck h, Waiting.stuck⟩, ⟨.of_stuck hn h, Rested.atRest⟩, ?_⟩
  · rw [← Machine.sum_map_ite_one]
    exact Machine.run_spend_le hstep hrun ⟨h, hstop⟩
  · have hown : ∀ u a v, (machine n).Reachable u ∧ u.stopping = true → a.own = true →
        (machine n).step u a = some v →
        ((machine n).Reachable v ∧ v.stopping = true) ∧ v.work n < u.work n := by
      intro u a v hu ha huv
      obtain ⟨hv, hwork⟩ := hstep u a v hu huv
      rw [if_pos ha, Action.brings_of_own n ha] at hwork
      exact ⟨hv, by omega⟩
    obtain ⟨as, t, hrun, has, ht, hstuck⟩ := Machine.exists_run_stuck hown ⟨h, hstop⟩
    exact ⟨as, t, hrun, has, .of_stuck hn ht.1 hstuck⟩

/-- `stop` is called with a connection in the queue and the owner before
`accept`. -/
theorem shutdown_completes_queued :
    ∃ s, (machine 1).run (.initial 1) (queuedRun ++ [.loopTest, .callStop, .stopStmt 0]) = some s ∧
      s.pool.tasks ≠ [] ∧ ∃ as t, (machine 1).run s as = some t ∧ (∀ a ∈ as, a.own = true) ∧ Rested t := by
  obtain ⟨-, -, -, hrest⟩ := shutdown_completes (n := 1) (by decide)
    ⟨queuedRun ++ [.loopTest, .callStop, .stopStmt 0], rfl⟩ rfl
  exact ⟨_, rfl, by decide, hrest⟩

end HttpsServer.Server
