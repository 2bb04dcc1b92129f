import HttpsServer.ThreadPool.Drain

/-!
# HttpsServer.ThreadPool.WakeUp

No wake-up is lost.

The notification follows the critical section as a step of its own, so a task
can wait in the queue of a pool whose workers sleep.  `Attended` counts what
makes up for it: while somebody sleeps there is a `notify_one` still to come or
a worker about to lock `mutex_` for every task in the queue, and a stopping
pool with a sleeper has a `notify_all` still to come.
-/

namespace HttpsServer.ThreadPool

variable {φ : Type}

/-- The client is in `submit`, with `notify_one` still to come. -/
def Client.isNotifyOne : Client → Bool
  | notifyOne => true
  | _ => false

/-- The client is in `shutdown`, with `notify_all` still to come. -/
def Client.isNotifyAll : Client → Bool
  | notifyAll _ => true
  | _ => false

namespace State

/-- The number of `notify_one` calls still to come. -/
def notifications (s : State φ) : Nat := s.clients.countP Client.isNotifyOne

/-- The number of workers about to lock `mutex_`. -/
def readyWorkers (s : State φ) : Nat := s.workers.countP Worker.isReady

/-- Some worker sleeps on `condition_`. -/
def SomeAsleep (s : State φ) : Prop := ∃ w : Nat, s.workers[w]? = some .asleep

/-- Some `notify_all` is still to come. -/
def NotifyAllPending (s : State φ) : Prop :=
  ∃ (c : Nat) (call : ShutdownCall), s.clients[c]? = some (.notifyAll call)

end State

/-- Nothing a sleeper should see goes unannounced. -/
structure Attended (s : State φ) : Prop where
  tasks : s.SomeAsleep → s.tasks.length ≤ s.notifications + s.readyWorkers
  stopping : s.SomeAsleep → s.stopping = true → s.NotifyAllPending

theorem Attended.of_nobody_asleep {s : State φ} (h : ¬ s.SomeAsleep) : Attended s where
  tasks := fun hs => absurd hs h
  stopping := fun hs => absurd hs h

/-! ## Sleepers and notifications across a step -/

section Slots

variable {s : State φ}

/-- A worker that is written and does not sleep adds no sleeper. -/
theorem someAsleep_of_set {w v : Nat} {a : Worker φ} (ha : a ≠ .asleep)
    (h : (s.workers.set w a)[v]? = some .asleep) : s.SomeAsleep :=
  ⟨v, (getElem?_set_slot h).resolve_left (Ne.symm ha)⟩

/-- Nobody sleeps after `notify_all`. -/
theorem not_someAsleep_notifyAll (c : Nat) (call : ShutdownCall) :
    ¬ (s.notifyAll c call).SomeAsleep := by
  rintro ⟨v, hv⟩
  rw [State.notifyAll, List.getElem?_map, Option.map_eq_some_iff] at hv
  obtain ⟨worker, -, hwoken⟩ := hv
  cases worker <;> cases hwoken

/-- The other clients still have their `notify_all` to send. -/
theorem notifyAllPending_set {c : Nat} {old new : Client} (hc : s.clients[c]? = some old)
    (hold : old.isNotifyAll = false) (h : s.NotifyAllPending) :
    ∃ (c' : Nat) (call : ShutdownCall), (s.clients.set c new)[c']? = some (.notifyAll call) := by
  obtain ⟨c', call, hc'⟩ := h
  refine ⟨c', call, getElem?_set_slot_of_ne hc hc' ?_⟩
  rintro rfl
  cases hold

/-- A client that had nothing to send moves on. -/
theorem Attended.client_moves (h : Attended s) {c : Nat} {old : Client} (new : Client)
    (hc : s.clients[c]? = some old) (hone : old.isNotifyOne = false)
    (hall : old.isNotifyAll = false) : Attended { s with clients := s.clients.set c new } where
  tasks := by
    intro hs
    have hcount := countP_set_slot Client.isNotifyOne new hc
    have := h.tasks hs
    simp only [State.notifications, State.readyWorkers, hone, Bool.false_eq_true, ↓reduceIte]
      at this hcount ⊢
    omega
  stopping := fun hs hstop => notifyAllPending_set hc hall (h.stopping hs hstop)

/-- A worker that was not about to lock `mutex_` becomes ready. -/
theorem Attended.worker_readies (h : Attended s) {w : Nat} {old : Worker φ}
    (hw : s.workers[w]? = some old) (hold : old.isReady = false) :
    Attended { s with workers := s.workers.set w .ready } where
  tasks := by
    rintro ⟨v, hv⟩
    have hcount := countP_set_slot Worker.isReady .ready hw
    have := h.tasks (someAsleep_of_set (by simp) hv)
    simp only [State.notifications, State.readyWorkers, hold, Bool.false_eq_true, ↓reduceIte]
      at this hcount ⊢
    omega
  stopping := fun ⟨_, hv⟩ hstop => h.stopping (someAsleep_of_set (by simp) hv) hstop

end Slots

/-- A step keeps `Attended`. -/
theorem Attended.step {s t : State φ} {a : Action φ} (h : Attended s) (hst : Step s a t) :
    Attended t := by
  cases hst with
  | @accepted c f hc _ =>
      refine ⟨fun hs => ?_, fun hs hstop => notifyAllPending_set hc rfl (h.stopping hs hstop)⟩
      -- the task comes with its `notify_one`
      have hcount := countP_set_slot Client.isNotifyOne .notifyOne hc
      have := h.tasks hs
      simp only [State.notifications, State.readyWorkers, Client.isNotifyOne, Bool.false_eq_true,
        ↓reduceIte, List.length_append, List.length_singleton] at this hcount ⊢
      omega
  | rejected _ _ => exact h
  | @notifiedOne c w hc hw =>
      refine ⟨fun ⟨v, hv⟩ => ?_, fun ⟨v, hv⟩ hstop => notifyAllPending_set hc rfl
        (h.stopping (someAsleep_of_set (by simp) hv) hstop)⟩
      -- the notification becomes a worker about to lock `mutex_`
      have hclients := countP_set_slot Client.isNotifyOne .idle hc
      have hworkers := countP_set_slot Worker.isReady .ready hw
      have := h.tasks (someAsleep_of_set (by simp) hv)
      simp only [State.notifications, State.readyWorkers, Client.isNotifyOne, Worker.isReady,
        Bool.false_eq_true, ↓reduceIte] at this hclients hworkers ⊢
      omega
  | notifiedNobody _ hnone =>
      refine .of_nobody_asleep fun ⟨v, hv⟩ => ?_
      have := List.any_eq_false.1 hnone _ (List.mem_of_getElem? hv)
      simp [Worker.isAsleep] at this
  | @closed c call hc =>
      have hmoves := h.client_moves (.notifyAll call) hc rfl rfl
      refine ⟨hmoves.tasks, fun _ _ => ⟨c, call, ?_⟩⟩
      exact List.getElem?_set_self (List.getElem?_eq_some_iff.1 hc).1
  | notifiedAll _ => exact .of_nobody_asleep (not_someAsleep_notifyAll _ _)
  | loopEnded hc _ => exact h.client_moves _ hc rfl rfl
  | skipped hc _ => exact h.client_moves _ hc rfl rfl
  | joinCalled hc _ => exact h.client_moves _ hc rfl rfl
  | @joinReturned c i hc _ =>
      have hmoves := h.client_moves (.joining (i + 1)) hc rfl rfl
      exact ⟨hmoves.tasks, hmoves.stopping⟩
  | left hc => exact h.client_moves _ hc rfl rfl
  | woken hw => exact h.worker_readies hw rfl
  | slept _ hstop htasks =>
      refine ⟨fun _ => ?_, fun _ hstop' => ?_⟩
      · simp [htasks]
      · simp [hstop] at hstop'
  | exited _ _ htasks =>
      refine ⟨fun _ => ?_, fun ⟨v, hv⟩ => h.stopping (someAsleep_of_set (by simp) hv)⟩
      simp [htasks]
  | @took w task rest hw htasks =>
      refine ⟨fun ⟨v, hv⟩ => ?_, fun ⟨v, hv⟩ => h.stopping (someAsleep_of_set (by simp) hv)⟩
      -- one ready worker and one task less
      have hcount := countP_set_slot Worker.isReady (.running task) hw
      have := h.tasks (someAsleep_of_set (by simp) hv)
      simp only [State.notifications, State.readyWorkers, Worker.isReady, htasks, List.length_cons,
        Bool.false_eq_true, ↓reduceIte] at this hcount ⊢
      omega
  | finished hw =>
      have hready := h.worker_readies hw rfl
      exact ⟨hready.tasks, hready.stopping⟩

/-- Every reachable state has `Attended`. -/
theorem Attended.of_reachable {n k : Nat} {s : State φ} (h : (machine φ n k).Reachable s) :
    Attended s := by
  refine invariant_of_step (.of_nobody_asleep ?_) (fun _ _ _ => Attended.step) h
  rintro ⟨v, hv⟩
  have := List.mem_of_getElem? hv
  simp [State.initial] at this

/-! ## Nobody is left asleep -/

/-- The worker is neither asleep nor gone: it will lock `mutex_` again. -/
def State.Awake (s : State φ) (w : Nat) : Prop :=
  s.workers[w]? = some .ready ∨ ∃ task, s.Runs w task

theorem State.worker_cases {n : Nat} (s : State φ) (h : Drain n s) {w : Nat} (hw : w < n) :
    s.Awake w ∨ s.Exited w ∨ s.workers[w]? = some .asleep := by
  have hlt : w < s.workers.length := h.workers_length ▸ hw
  cases hworker : s.workers[w] with
  | ready => exact .inl (.inl (by rw [List.getElem?_eq_getElem hlt, hworker]))
  | asleep => exact .inr (.inr (by rw [List.getElem?_eq_getElem hlt, hworker]))
  | running task => exact .inl (.inr ⟨task, by rw [State.Runs, List.getElem?_eq_getElem hlt, hworker]⟩)
  | exited => exact .inr (.inl (by rw [State.Exited, List.getElem?_eq_getElem hlt, hworker]))

/-- **No wake-up is lost**, for any number of workers and clients and under
every interleaving: while somebody sleeps, every queued task has a
`notify_one` still to come or a worker about to lock `mutex_`, and a shutdown
request has its `notify_all` still to come.  So a queued task in a pool with
workers has a worker that is awake, or a sleeper and a `notify_one` still to
come; and under a shutdown request every worker is awake, gone, or has a
`notify_all` still to come. -/
theorem no_wakeup_lost {n k : Nat} {s : State φ} (h : (machine φ n k).Reachable s) :
    (s.SomeAsleep → s.tasks.length ≤ s.notifications + s.readyWorkers) ∧
    (s.SomeAsleep → s.stopping = true → s.NotifyAllPending) ∧
    (0 < n → s.tasks ≠ [] → (∃ w, s.Awake w) ∨ (s.SomeAsleep ∧ 0 < s.notifications)) ∧
    (s.stopping = true → ∀ w < n, s.Awake w ∨ s.Exited w ∨ s.NotifyAllPending) := by
  have hattended := Attended.of_reachable h
  have hdrain := Drain.of_reachable h
  refine ⟨hattended.tasks, hattended.stopping, fun hn htasks => ?_, fun hstop w hw => ?_⟩
  · by_cases hasleep : s.SomeAsleep
    · have hlen := hattended.tasks hasleep
      have hpos : 0 < s.tasks.length := List.length_pos_iff.2 htasks
      by_cases hnote : 0 < s.notifications
      · exact .inr ⟨hasleep, hnote⟩
      · left
        obtain ⟨worker, hmem, hready⟩ := List.countP_pos_iff.1 (by omega : 0 < s.readyWorkers)
        obtain ⟨w, hw⟩ := List.mem_iff_getElem?.1 hmem
        cases worker with
        | ready => exact ⟨w, .inl hw⟩
        | asleep => cases hready
        | running task => cases hready
        | exited => cases hready
    · -- nobody sleeps, and nobody has left a queue with a task in it
      left
      refine ⟨0, ?_⟩
      rcases s.worker_cases hdrain hn with hawake | hexit | hsleep
      · exact hawake
      · exact absurd (hdrain.exited 0 hexit).2 htasks
      · exact absurd ⟨0, hsleep⟩ hasleep
  · rcases s.worker_cases hdrain hw with hawake | hexit | hsleep
    · exact .inl hawake
    · exact .inr (.inl hexit)
    · exact .inr (.inr (hattended.stopping ⟨w, hsleep⟩ hstop))

/-- Between the critical section of `submit` and its `notify_one`: the only
worker sleeps and a task is queued. -/
theorem no_wakeup_lost_asleep :
    ∃ s, (machine Nat 1 1).run (.initial 1 1) [.lock 0, .submit 0 7] = some s ∧
      s.SomeAsleep ∧ s.tasks.length ≤ s.notifications + s.readyWorkers := by
  obtain ⟨htasks, -⟩ := no_wakeup_lost (n := 1) (k := 1) (φ := Nat)
    ⟨[.lock 0, .submit 0 7], rfl⟩
  exact ⟨_, rfl, ⟨0, rfl⟩, htasks ⟨0, rfl⟩⟩

end HttpsServer.ThreadPool
