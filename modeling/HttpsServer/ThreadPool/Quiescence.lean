import HttpsServer.Progress
import HttpsServer.ThreadPool.WakeUp

/-!
# HttpsServer.ThreadPool.Quiescence

The pool gets its work done.

`work` measures what the threads of a pool have still to do: a queued task is
worth its dequeueing and its run, a pending notification the workers it may
wake, a client in the loop over `workers_` the workers it has not passed.  Every
step of the pool's own uses some of it up, and only calls from outside and
spurious wake-ups bring in more (`Step.work`).  So the pool comes to rest,
whatever the scheduler does, and it rests only when nothing is left to be done
(`comes_to_rest`).
-/

namespace HttpsServer.ThreadPool

open scoped List

variable {φ : Type}

/-! ## Work -/

/-- A step the threads take of themselves: no new call of `submit`, `shutdown`,
`wait` or the destructor, and no spurious wake-up. -/
def Action.own : Action φ → Bool
  | submit _ _ | shutdown _ _ | wake _ => false
  | notifyOne _ _ | notifyAll _ | join _ | leave _ | lock _ | finish _ _ => true

def Worker.work : Worker φ → Nat
  | asleep | exited => 0
  | ready => 1
  | running _ => 2

/-- The steps of a client, in a pool of `n` workers; `notify_all` may wake all
of these. -/
def Client.work (n : Nat) : Client → Nat
  | idle => 0
  | joined => 1
  | notifyOne => 2
  | blocked i => 2 * (n - i) + 1
  | joining i => 2 * (n - i) + 2
  | notifyAll _ => 3 * n + 3

/-- What the threads have still to do. -/
def State.work (n : Nat) (s : State φ) : Nat :=
  2 * s.tasks.length + (s.workers.map Worker.work).sum + (s.clients.map (Client.work n)).sum

/-- What comes in from outside. -/
def Action.brings (n : Nat) : Action φ → Nat
  | submit _ _ => 4
  | shutdown _ _ => 3 * n + 3
  | wake _ => 1
  | notifyOne _ _ | notifyAll _ | join _ | leave _ | lock _ | finish _ _ => 0

theorem sum_work_woken (workers : List (Worker φ)) :
    ((workers.map Worker.woken).map Worker.work).sum ≤
      (workers.map Worker.work).sum + workers.length := by
  induction workers with
  | nil => exact Nat.le_refl _
  | cons worker workers ih =>
      have hfirst : worker.woken.work ≤ worker.work + 1 := by
        cases worker <;> simp [Worker.woken, Worker.work]
      simp only [List.map_cons, List.sum_cons, List.length_cons]
      omega

/-- A client's step. -/
theorem Client.sum_work_set {n c : Nat} {clients : List Client} {old : Client} (new : Client)
    (h : clients[c]? = some old) :
    ((clients.set c new).map (Client.work n)).sum + old.work n =
      (clients.map (Client.work n)).sum + new.work n := sum_map_set_slot _ new h

/-- A worker's step. -/
theorem Worker.sum_work_set {w : Nat} {workers : List (Worker φ)} {old : Worker φ}
    (new : Worker φ) (h : workers[w]? = some old) :
    ((workers.set w new).map Worker.work).sum + old.work = (workers.map Worker.work).sum + new.work :=
  sum_map_set_slot _ new h

/-- **Step**: a step of the pool's own uses up work, and the others bring in no
more than they are worth. -/
theorem Step.work {n : Nat} {s t : State φ} {a : Action φ} (h : Step s a t)
    (hworkers : s.workers.length = n) (hjoinable : s.joinable.length = n) :
    (if a.own then 1 else 0) + t.work n ≤ s.work n + a.brings n := by
  cases h with
  | accepted hc _ =>
      have hclients := Client.sum_work_set (n := n) .notifyOne hc
      simp only [State.work, Action.own, Action.brings, Client.work, List.length_append,
        List.length_singleton, Bool.false_eq_true, if_false] at hclients ⊢
      omega
  | rejected _ _ => simp [Action.own]
  | notifiedOne hc hw =>
      have hclients := Client.sum_work_set (n := n) .idle hc
      have hmoved := Worker.sum_work_set .ready hw
      simp only [State.work, Action.own, Action.brings, Client.work, Worker.work, if_true]
        at hclients hmoved ⊢
      omega
  | notifiedNobody hc _ =>
      have hclients := Client.sum_work_set (n := n) .idle hc
      simp only [State.work, Action.own, Action.brings, Client.work, if_true] at hclients ⊢
      omega
  | @closed c call hc =>
      have hclients := Client.sum_work_set (n := n) (.notifyAll call) hc
      simp only [State.work, State.shutdown, Action.own, Action.brings, Client.work,
        Bool.false_eq_true, if_false] at hclients ⊢
      omega
  | @notifiedAll c call hc =>
      have hclients := Client.sum_work_set (n := n) (if call.joins then .joining 0 else .idle) hc
      have hwoken := sum_work_woken s.workers
      have hnext : (if call.joins then Client.joining 0 else .idle).work n ≤ 2 * n + 2 := by
        split <;> simp [Client.work]
      have hpending : (Client.notifyAll call).work n = 3 * n + 3 := rfl
      simp only [State.work, State.notifyAll, Action.own, Action.brings, if_true]
      omega
  | loopEnded hc _ =>
      have hclients := Client.sum_work_set (n := n) .joined hc
      simp only [State.work, Action.own, Action.brings, Client.work, if_true] at hclients ⊢
      omega
  | @skipped c i hc hi =>
      have hlt : i < n := hjoinable ▸ (List.getElem?_eq_some_iff.1 hi).1
      have hclients := Client.sum_work_set (n := n) (.joining (i + 1)) hc
      simp only [State.work, Action.own, Action.brings, Client.work, if_true] at hclients ⊢
      omega
  | @joinCalled c i hc _ =>
      have hclients := Client.sum_work_set (n := n) (.blocked i) hc
      simp only [State.work, Action.own, Action.brings, Client.work, if_true] at hclients ⊢
      omega
  | @joinReturned c i hc hi =>
      have hlt : i < n := hworkers ▸ (List.getElem?_eq_some_iff.1 hi).1
      have hclients := Client.sum_work_set (n := n) (.joining (i + 1)) hc
      simp only [State.work, Action.own, Action.brings, Client.work, if_true] at hclients ⊢
      omega
  | left hc =>
      have hclients := Client.sum_work_set (n := n) .idle hc
      simp only [State.work, Action.own, Action.brings, Client.work, if_true] at hclients ⊢
      omega
  | woken hw =>
      have hmoved := Worker.sum_work_set .ready hw
      simp only [State.work, Action.own, Action.brings, Worker.work, Bool.false_eq_true, if_false]
        at hmoved ⊢
      omega
  | slept hw _ _ =>
      have hmoved := Worker.sum_work_set .asleep hw
      simp only [State.work, Action.own, Action.brings, Worker.work, if_true] at hmoved ⊢
      omega
  | exited hw _ _ =>
      have hmoved := Worker.sum_work_set .exited hw
      simp only [State.work, Action.own, Action.brings, Worker.work, if_true] at hmoved ⊢
      omega
  | @took w task rest hw htasks =>
      have hmoved := Worker.sum_work_set (.running task) hw
      simp only [State.work, Action.own, Action.brings, Worker.work, htasks, List.length_cons,
        if_true] at hmoved ⊢
      omega
  | finished hw =>
      have hmoved := Worker.sum_work_set .ready hw
      simp only [State.work, State.finish, Action.own, Action.brings, Worker.work, if_true]
        at hmoved ⊢
      omega

/-! ## Rest -/

/-- Nothing is left to be done: no task is queued and every accepted one has
made its future ready; no call is in progress; and the workers are gone if the
pool is shutting down, and asleep if not. -/
structure Quiescent (s : State φ) : Prop where
  tasks : s.tasks = []
  finished : s.finished ~ s.accepted
  clients : ∀ client ∈ s.clients, client = .idle
  workers : ∀ worker ∈ s.workers, worker = if s.stopping then .exited else .asleep

/-- No step of the pool's own is enabled. -/
def AtRest (n k : Nat) (s : State φ) : Prop := (machine φ n k).Stuck (fun a => a.own = true) s

section Rest

variable {n k : Nat} {s : State φ}

theorem Quiescent.atRest (h : Quiescent s) : AtRest n k s := by
  intro a ha
  -- whoever would take the step is somewhere else
  have hclient : ∀ {c : Nat} {client : Client}, s.clients[c]? = some client → client = .idle :=
    fun hc => h.clients _ (List.mem_of_getElem? hc)
  have hworker : ∀ {w : Nat} {worker : Worker φ}, s.workers[w]? = some worker →
      worker = .exited ∨ worker = .asleep := by
    intro w worker hw
    rw [h.workers _ (List.mem_of_getElem? hw)]
    split
    · exact .inl rfl
    · exact .inr rfl
  refine Option.eq_none_iff_forall_ne_some.2 fun t hst => ?_
  cases Step.of_step hst with
  | accepted | rejected | closed | woken => cases ha
  | notifiedOne hc _ | notifiedNobody hc _ | notifiedAll hc | loopEnded hc _ | skipped hc _
  | joinCalled hc _ | joinReturned hc _ | left hc => cases hclient hc
  | slept hw _ _ | exited hw _ _ | took hw _ | finished hw =>
      cases hworker hw with
      | inl hexited => cases hexited
      | inr hasleep => cases hasleep

/-- A worker of a pool at rest is asleep or gone. -/
theorem AtRest.worker (h : AtRest n k s) {worker : Worker φ} (hmem : worker ∈ s.workers) :
    worker = .asleep ∨ worker = .exited := by
  obtain ⟨w, hw⟩ := List.mem_iff_getElem?.1 hmem
  cases worker with
  | asleep => exact .inl rfl
  | exited => exact .inr rfl
  | ready =>
      have hlock := h (.lock w) rfl
      simp [machine, State.step, hw] at hlock
  | running task =>
      have hfinish := h (.finish w .returned) rfl
      simp [machine, State.step, hw] at hfinish

/-- A client of a pool at rest is in no call, or waits for a worker. -/
theorem AtRest.client (h : AtRest n k s) {client : Client} (hmem : client ∈ s.clients) :
    client = .idle ∨ ∃ i, client = .blocked i ∧ ¬ s.Exited i := by
  obtain ⟨c, hc⟩ := List.mem_iff_getElem?.1 hmem
  cases client with
  | idle => exact .inl rfl
  | notifyOne =>
      by_cases hasleep : s.workers.any Worker.isAsleep = true
      · obtain ⟨worker, hworker, hsleeps⟩ := List.any_eq_true.1 hasleep
        obtain ⟨w, hw⟩ := List.mem_iff_getElem?.1 hworker
        cases worker with
        | asleep =>
            have hnotify := h (.notifyOne c (some w)) rfl
            simp [machine, State.step, State.notifyOne, hc, hw] at hnotify
        | ready | running | exited => cases hsleeps
      · have hnotify := h (.notifyOne c none) rfl
        simp [machine, State.step, State.notifyOne, hc, hasleep] at hnotify
  | notifyAll call =>
      have hnotify := h (.notifyAll c) rfl
      simp [machine, State.step, hc] at hnotify
  | joining i =>
      have hjoin := h (.join c) rfl
      simp [machine, State.step, hc] at hjoin
  | blocked i =>
      refine .inr ⟨i, rfl, fun hexited => ?_⟩
      have hjoin := h (.join c) rfl
      simp [machine, State.step, State.joinReturns, hc, show s.workers[i]? = some .exited from hexited]
        at hjoin
  | joined =>
      have hleave := h (.leave c) rfl
      simp [machine, State.step, hc] at hleave

end Rest

/-! ## Calls that end -/

/-- A client that is past the critical section of `shutdown` has set
`stopping_`, and joins one of the `n` workers. -/
def Client.Closes (n : Nat) (stopping : Bool) : Client → Prop
  | idle | notifyOne => True
  | notifyAll _ | joining _ | joined => stopping = true
  | blocked i => stopping = true ∧ i < n

theorem Client.Closes.mono {n : Nat} {b b' : Bool} {client : Client} (h : client.Closes n b)
    (hb : b = true → b' = true) : client.Closes n b' := by
  cases client with
  | idle | notifyOne => trivial
  | notifyAll | joining | joined => exact hb h
  | blocked i => exact ⟨hb h.1, h.2⟩

theorem closes_step {n : Nat} {s t : State φ} {a : Action φ} (hjoinable : s.joinable.length = n)
    (h : ∀ client ∈ s.clients, client.Closes n s.stopping) (hst : Step s a t) :
    ∀ client ∈ t.clients, client.Closes n t.stopping := by
  -- one client moves on
  have hset : ∀ {c : Nat} {old new : Client} {stopping : Bool}, s.clients[c]? = some old →
      (s.stopping = true → stopping = true) → (old.Closes n s.stopping → new.Closes n stopping) →
      ∀ client ∈ s.clients.set c new, client.Closes n stopping := by
    intro c old new stopping hc hstopping hnew client hmem
    cases List.mem_or_eq_of_mem_set hmem with
    | inl hbefore => exact (h client hbefore).mono hstopping
    | inr heq => exact heq ▸ hnew (h old (List.mem_of_getElem? hc))
  cases hst with
  | accepted hc _ => exact hset hc id fun _ => trivial
  | notifiedOne hc _ | notifiedNobody hc _ | left hc => exact hset hc id fun _ => trivial
  | closed hc => exact hset hc (fun _ => rfl) fun _ => rfl
  | @notifiedAll c call hc =>
      refine hset hc id fun hold => ?_
      split
      · exact hold
      · trivial
  | loopEnded hc _ | skipped hc _ => exact hset hc id id
  | joinCalled hc hi =>
      exact hset hc id fun hold => ⟨hold, hjoinable ▸ (List.getElem?_eq_some_iff.1 hi).1⟩
  | joinReturned hc _ => exact hset hc id And.left
  | rejected | woken | slept | exited | took | finished => exact h

theorem closes_of_reachable {n k : Nat} {s : State φ} (h : (machine φ n k).Reachable s) :
    ∀ client ∈ s.clients, client.Closes n s.stopping := by
  have hboth : s.joinable.length = n ∧ ∀ client ∈ s.clients, client.Closes n s.stopping := by
    refine invariant_of_step (I := fun s : State φ =>
      s.joinable.length = n ∧ ∀ client ∈ s.clients, client.Closes n s.stopping) ?_ ?_ h
    · refine ⟨List.length_replicate .., fun client hmem => ?_⟩
      rw [(List.mem_replicate.1 hmem).2]
      trivial
    · exact fun s a t hs hst =>
        ⟨hst.joinable_length.trans hs.1, closes_step hs.1 hs.2 hst⟩
  exact hboth.2

/-- Where no task is queued or held, every accepted one has been run. -/
theorem Fifo.finished_perm {s : State φ} (h : Fifo s) (htasks : s.tasks = []) (hheld : s.held = []) :
    s.finished ~ s.accepted := by
  have howned := h.owned
  rw [hheld, List.append_nil] at howned
  rw [h.order, htasks, List.append_nil]
  exact howned

/-- **A pool at rest has nothing left to do.** -/
theorem AtRest.quiescent {n k : Nat} (hn : 0 < n) {s : State φ} (hrest : AtRest n k s)
    (h : (machine φ n k).Reachable s) : Quiescent s := by
  have hfifo := Fifo.of_reachable h
  have hdrain := Drain.of_reachable h
  have hattended := Attended.of_reachable h
  have hnotify : ∀ client ∈ s.clients, client.isNotifyOne = false ∧ client.isNotifyAll = false := by
    intro client hmem
    rcases hrest.client hmem with rfl | ⟨i, rfl, -⟩ <;> exact ⟨rfl, rfl⟩
  -- whoever still sleeps has been told of the shutdown
  have hworkers : ∀ worker ∈ s.workers, worker = if s.stopping then .exited else .asleep := by
    intro worker hmem
    obtain ⟨w, hw⟩ := List.mem_iff_getElem?.1 hmem
    cases hrest.worker hmem with
    | inl hasleep =>
        rw [hasleep] at hw ⊢
        have hgoing : s.stopping = false := by
          refine Bool.eq_false_iff.2 fun hstop => ?_
          obtain ⟨c, call, hc⟩ := hattended.stopping ⟨w, hw⟩ hstop
          have := (hnotify _ (List.mem_of_getElem? hc)).2
          contradiction
        rw [hgoing]
        rfl
    | inr hexited =>
        rw [hexited] at hw ⊢
        rw [(hdrain.exited w hw).1]
        rfl
  have hlt : 0 < s.workers.length := hdrain.workers_length ▸ hn
  have hfirst := hworkers _ (List.getElem_mem hlt)
  have htasks : s.tasks = [] := by
    cases hstop : s.stopping with
    | true =>
        rw [hstop, if_pos rfl] at hfirst
        exact (hdrain.exited 0 (by rw [State.Exited, List.getElem?_eq_getElem hlt, hfirst])).2
    | false =>
        rw [hstop, if_neg (by decide)] at hfirst
        have hlen := hattended.tasks ⟨0, by rw [List.getElem?_eq_getElem hlt, hfirst]⟩
        have hones : s.notifications = 0 :=
          List.countP_eq_zero.2 fun client hmem => by simp [(hnotify client hmem).1]
        have hready : s.readyWorkers = 0 := by
          refine List.countP_eq_zero.2 fun worker hmem => ?_
          cases hrest.worker hmem with
          | inl hasleep => simp [hasleep, Worker.isReady]
          | inr hexited => simp [hexited, Worker.isReady]
        exact List.length_eq_zero_iff.1 (by omega)
  have hheld : s.held = [] := by
    rw [List.eq_nil_iff_forall_not_mem]
    intro task htask
    obtain ⟨w, hw⟩ := State.mem_held_iff.1 htask
    cases hrest.worker (List.mem_of_getElem? hw) with
    | inl hasleep => cases hasleep
    | inr hexited => cases hexited
  refine ⟨htasks, hfifo.finished_perm htasks hheld, fun client hmem => ?_, hworkers⟩
  rcases hrest.client hmem with hidle | ⟨i, rfl, hwaits⟩
  · exact hidle
  · -- a join in a pool that is shutting down returns
    obtain ⟨hstop, hi⟩ := closes_of_reachable h _ hmem
    have hlt : i < s.workers.length := hdrain.workers_length ▸ hi
    have hgone := hworkers _ (List.getElem_mem hlt)
    rw [hstop, if_pos rfl] at hgone
    exact absurd (by rw [State.Exited, List.getElem?_eq_getElem hlt, hgone]) hwaits

/-! ## The pool comes to rest -/

/-- **The pool gets its work done**, for any number of workers and clients and
whatever the scheduler does, as long as the tasks themselves end: its threads
take no more steps of their own than the work that is left and that calls and
spurious wake-ups bring in; from every state they come to rest; and they rest
exactly when no task is queued, every accepted one has been run, every call has
returned and, under a shutdown request, every worker has left. -/
theorem comes_to_rest {n k : Nat} (hn : 0 < n) {s : State φ} (h : (machine φ n k).Reachable s) :
    (∀ as t, (machine φ n k).run s as = some t →
      as.countP Action.own + t.work n ≤ s.work n + (as.map (Action.brings n)).sum) ∧
    (∃ as t, (machine φ n k).run s as = some t ∧ (∀ a ∈ as, a.own = true) ∧ Quiescent t) ∧
    (AtRest n k s ↔ Quiescent s) := by
  have hdrain := Drain.of_reachable h
  have hstep : ∀ u a v, u.workers.length = n ∧ u.joinable.length = n →
      (machine φ n k).step u a = some v →
      (v.workers.length = n ∧ v.joinable.length = n) ∧
        (if a.own then 1 else 0) + v.work n ≤ u.work n + a.brings n := by
    intro u a v hu huv
    have hst := Step.of_step huv
    exact ⟨⟨hst.workers_length.trans hu.1, hst.joinable_length.trans hu.2⟩, hst.work hu.1 hu.2⟩
  have hlengths := And.intro hdrain.workers_length hdrain.joinable_length
  refine ⟨fun as t hrun => ?_, ?_, fun hrest => hrest.quiescent hn h, Quiescent.atRest⟩
  · rw [← Machine.sum_map_ite_one]
    exact Machine.run_spend_le hstep hrun hlengths
  · have hown : ∀ u a v, u.workers.length = n ∧ u.joinable.length = n → a.own = true →
        (machine φ n k).step u a = some v →
        (v.workers.length = n ∧ v.joinable.length = n) ∧ v.work n < u.work n := by
      intro u a v hu ha huv
      obtain ⟨hv, hwork⟩ := hstep u a v hu huv
      have hfree : a.brings n = 0 := by cases a <;> first | rfl | cases ha
      rw [if_pos ha, hfree] at hwork
      exact ⟨hv, by omega⟩
    obtain ⟨as, t, hrun, has, -, hstuck⟩ := Machine.exists_run_stuck hown hlengths
    exact ⟨as, t, hrun, has, AtRest.quiescent hn hstuck (h.reaches ⟨as, hrun⟩)⟩

/-- One worker, asleep, and a task for it. -/
theorem comes_to_rest_asleep :
    ∃ s, (machine Nat 1 1).run (.initial 1 1) [.lock 0, .submit 0 7] = some s ∧
      ∃ as t, (machine Nat 1 1).run s as = some t ∧ (∀ a ∈ as, a.own = true) ∧ Quiescent t := by
  obtain ⟨-, hrest, -⟩ := comes_to_rest (n := 1) (k := 1) (φ := Nat) (by decide)
    ⟨[.lock 0, .submit 0 7], rfl⟩
  exact ⟨_, rfl, hrest⟩

end HttpsServer.ThreadPool
