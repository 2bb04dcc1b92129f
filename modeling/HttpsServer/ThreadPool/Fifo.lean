import HttpsServer.ThreadPool

/-!
# HttpsServer.ThreadPool.Fifo

Every accepted task is run once, in the order of acceptance.

`Fifo` is the invariant: the accepted tasks are the dequeued ones followed by
`tasks_`, and the dequeued ones are those held by a worker together with those
whose future is ready.  Tickets number the accepted tasks, so nothing in these
lists occurs twice, and `runs_each_task_once` reads off who has which task.
-/

namespace HttpsServer.ThreadPool

open scoped List

variable {φ : Type}

/-- The queue and its histories fit together. -/
structure Fifo (s : State φ) : Prop where
  order : s.accepted = s.dequeued ++ s.tasks
  tickets : s.accepted.map Task.ticket = List.range s.accepted.length
  owned : s.finished ++ s.held ~ s.dequeued

theorem Fifo.initial (n k : Nat) : Fifo (State.initial n k : State φ) where
  order := rfl
  tickets := rfl
  owned := by simp [State.initial, State.finished, State.held, Worker.task?]

/-- Writing a worker that holds no task by another such leaves what is held. -/
theorem held_set_of_task?_eq {s : State φ} {w : Nat} {a b : Worker φ} (h : s.workers[w]? = some a)
    (htask : a.task? = b.task?) : (s.workers.set w b).filterMap Worker.task? ~ s.held := by
  have hperm := filterMap_set_slot Worker.task? b h
  rw [htask] at hperm
  exact (List.perm_append_left_iff _).1 hperm

/-- Waking everybody leaves what is held. -/
theorem held_map_woken (l : List (Worker φ)) :
    (l.map Worker.woken).filterMap Worker.task? = l.filterMap Worker.task? := by
  rw [List.filterMap_map]
  congr 1
  funext w
  cases w <;> rfl

/-- What a step does with tasks: it queues one, gives one to a worker, ends the
run of one, or leaves them where they are. -/
inductive Transfer (s : State φ) : Action φ → State φ → Prop
  | queued {c : Nat} {f : φ} {t : State φ} : s.accepting = true →
      t.tasks = s.tasks ++ [⟨s.accepted.length, f⟩] →
      t.accepted = s.accepted ++ [⟨s.accepted.length, f⟩] → t.dequeued = s.dequeued →
      t.held = s.held → t.futures = s.futures → Transfer s (.submit c f) t
  | taken {w : Nat} {task : Task φ} {t : State φ} : s.tasks = task :: t.tasks →
      t.accepted = s.accepted → t.dequeued = s.dequeued ++ [task] → t.held ~ task :: s.held →
      t.futures = s.futures → Transfer s (.lock w) t
  | ended {w : Nat} {task : Task φ} {outcome : Outcome} {t : State φ} :
      s.workers[w]? = some (.running task) → t.tasks = s.tasks → t.accepted = s.accepted →
      t.dequeued = s.dequeued → task :: t.held ~ s.held →
      t.futures = s.futures ++ [(task, outcome)] → Transfer s (.finish w outcome) t
  | none {a : Action φ} {t : State φ} : (∀ c f, a = .submit c f → s.accepting = false) →
      (∀ w outcome, a ≠ .finish w outcome) → t.tasks = s.tasks → t.accepted = s.accepted →
      t.dequeued = s.dequeued → t.held ~ s.held → t.futures = s.futures → Transfer s a t

/-- Every step is one of these. -/
theorem Step.transfer {s t : State φ} {a : Action φ} (h : Step s a t) : Transfer s a t := by
  cases h with
  | accepted _ hacc => exact .queued hacc rfl rfl rfl rfl rfl
  | rejected _ hacc => exact .none (fun _ _ _ => hacc) nofun rfl rfl rfl (.refl _) rfl
  | notifiedOne _ hw => exact .none nofun nofun rfl rfl rfl (held_set_of_task?_eq hw rfl) rfl
  | notifiedAll _ =>
      refine .none nofun nofun rfl rfl rfl ?_ rfl
      rw [State.held, State.notifyAll, held_map_woken]
      exact .refl _
  | woken hw => exact .none nofun nofun rfl rfl rfl (held_set_of_task?_eq hw rfl) rfl
  | slept hw _ _ => exact .none nofun nofun rfl rfl rfl (held_set_of_task?_eq hw rfl) rfl
  | exited hw _ _ => exact .none nofun nofun rfl rfl rfl (held_set_of_task?_eq hw rfl) rfl
  | @took w task rest hw htasks =>
      exact .taken htasks rfl rfl (filterMap_set_slot Worker.task? (.running task) hw) rfl
  | @finished w task outcome hw =>
      exact .ended hw rfl rfl rfl (filterMap_set_slot Worker.task? .ready hw) rfl
  | _ => exact .none nofun nofun rfl rfl rfl (.refl _) rfl

/-- A step keeps `Fifo`. -/
theorem Fifo.step {s t : State φ} {a : Action φ} (h : Fifo s) (hst : Step s a t) : Fifo t := by
  cases hst.transfer with
  | queued _ htasks haccepted hdequeued hheld hfutures =>
      refine ⟨by rw [htasks, haccepted, hdequeued, h.order, List.append_assoc], ?_, ?_⟩
      · rw [haccepted, List.map_append, h.tickets, List.length_append, List.length_singleton,
          List.range_succ]
        rfl
      · rw [hdequeued, hheld, State.finished, hfutures]
        exact h.owned
  | @taken w task _ htasks haccepted hdequeued hheld hfutures =>
      refine ⟨?_, by rw [haccepted, h.tickets], ?_⟩
      · rw [haccepted, hdequeued, h.order, htasks, List.append_assoc, List.singleton_append]
      · -- the task moves from the queue into the hands of its worker
        calc t.finished ++ t.held
            ~ s.finished ++ task :: s.held := by
              rw [State.finished, hfutures]
              exact hheld.append_left _
          _ ~ task :: (s.finished ++ s.held) := List.perm_middle
          _ ~ task :: s.dequeued := h.owned.cons task
          _ ~ t.dequeued := by
              rw [hdequeued]
              exact (List.perm_append_singleton ..).symm
  | @ended w task outcome _ _ htasks haccepted hdequeued hheld hfutures =>
      refine ⟨by rw [htasks, haccepted, hdequeued, h.order], by rw [haccepted, h.tickets], ?_⟩
      -- and from there among the futures
      calc t.finished ++ t.held
          = s.finished ++ task :: t.held := by
            rw [State.finished, hfutures, List.map_append, List.append_assoc]
            rfl
        _ ~ s.finished ++ s.held := hheld.append_left _
        _ ~ s.dequeued := h.owned
        _ = t.dequeued := hdequeued.symm
  | none _ _ htasks haccepted hdequeued hheld hfutures =>
      refine ⟨by rw [htasks, haccepted, hdequeued, h.order], by rw [haccepted, h.tickets], ?_⟩
      rw [hdequeued, State.finished, hfutures]
      exact (hheld.append_left _).trans h.owned

/-- Every reachable state has `Fifo`. -/
theorem Fifo.of_reachable {n k : Nat} {s : State φ} (h : (machine φ n k).Reachable s) : Fifo s :=
  invariant_of_step (.initial n k) (fun _ _ _ => Fifo.step) h

/-- No task is accepted twice. -/
theorem Fifo.nodup_accepted {s : State φ} (h : Fifo s) : s.accepted.Nodup := by
  refine List.Nodup.of_map Task.ticket ?_
  rw [h.tickets]
  exact List.nodup_range

/-- No task is run twice, whether by two workers, by one worker again or after
its end. -/
theorem Fifo.nodup_owned {s : State φ} (h : Fifo s) : (s.finished ++ s.held).Nodup := by
  have hacc := h.nodup_accepted
  rw [h.order] at hacc
  exact h.owned.nodup_iff.2 (List.nodup_append.1 hacc).1

/-! ## Who has a task -/

/-- The worker is inside `task()` with the task. -/
def State.Runs (s : State φ) (w : Nat) (task : Task φ) : Prop :=
  s.workers[w]? = some (.running task)

theorem State.mem_held_iff {s : State φ} {task : Task φ} :
    task ∈ s.held ↔ ∃ w, s.Runs w task := by
  rw [held, List.mem_filterMap]
  constructor
  · rintro ⟨worker, hmem, htask⟩
    obtain ⟨w, hw⟩ := List.mem_iff_getElem?.1 hmem
    cases worker with
    | running t =>
        cases htask
        exact ⟨w, hw⟩
    | ready => contradiction
    | asleep => contradiction
    | exited => contradiction
  · rintro ⟨w, hw⟩
    exact ⟨_, List.mem_of_getElem? hw, rfl⟩

/-- A task is run by one worker at most. -/
theorem Fifo.runs_unique {s : State φ} (h : Fifo s) {task : Task φ} {w w' : Nat}
    (hw : s.Runs w task) (hw' : s.Runs w' task) : w = w' :=
  slot_unique_of_nodup (f := Worker.task?) (List.nodup_append.1 h.nodup_owned).2.1 hw hw' rfl rfl

/-- What the pool owes its callers about the tasks it accepted. -/
structure ExactlyOnce (s : State φ) : Prop where
  /-- Tasks leave the queue in the order in which they were accepted. -/
  order : s.accepted = s.dequeued ++ s.tasks
  distinct : s.accepted.Nodup
  /-- A dequeued task is with one worker, or its run is over. -/
  owner : ∀ task ∈ s.dequeued, ((∃! w, s.Runs w task) ∧ task ∉ s.finished) ∨
    ((∀ w, ¬ s.Runs w task) ∧ task ∈ s.finished)
  /-- Nothing else is ever run. -/
  dequeued : ∀ task, (∃ w, s.Runs w task) ∨ task ∈ s.finished → task ∈ s.dequeued
  /-- No run is over twice. -/
  once : s.finished.Nodup

theorem Fifo.exactlyOnce {s : State φ} (h : Fifo s) : ExactlyOnce s where
  order := h.order
  distinct := h.nodup_accepted
  owner := by
    intro task htask
    have hdisj := List.disjoint_of_nodup_append h.nodup_owned
    cases List.mem_append.1 (h.owned.mem_iff.2 htask) with
    | inl hfin =>
        right
        exact ⟨fun w hw => hdisj hfin (State.mem_held_iff.2 ⟨w, hw⟩), hfin⟩
    | inr hheld =>
        left
        obtain ⟨w, hw⟩ := State.mem_held_iff.1 hheld
        exact ⟨⟨w, hw, fun w' hw' => h.runs_unique hw' hw⟩, fun hfin => hdisj hfin hheld⟩
  dequeued := by
    intro task htask
    refine h.owned.mem_iff.1 (List.mem_append.2 ?_)
    cases htask with
    | inl hruns => exact .inr (State.mem_held_iff.2 hruns)
    | inr hfin => exact .inl hfin
  once := (List.nodup_append.1 h.nodup_owned).1

/-- **Every accepted task is run once, first in first out**, by any number of
workers, for any number of clients and under every interleaving.  A task that
throws gives its worker back to `worker_loop` and touches no other task. -/
theorem runs_each_task_once {n k : Nat} {s : State φ} (h : (machine φ n k).Reachable s) :
    ExactlyOnce s ∧
      ∀ w task, s.Runs w task → ∃ t, s.step (.finish w .threw) = some t ∧
        t.workers = s.workers.set w .ready ∧ t.tasks = s.tasks ∧ t.accepted = s.accepted ∧
        t.dequeued = s.dequeued ∧ t.futures = s.futures ++ [(task, .threw)] ∧ ExactlyOnce t := by
  refine ⟨(Fifo.of_reachable h).exactlyOnce, fun w task hruns => ?_⟩
  have hstep : (machine φ n k).step s (.finish w .threw) = some (s.finish w task .threw) := by
    rw [State.Runs] at hruns
    simp only [machine, State.step, hruns]
  refine ⟨_, hstep, rfl, rfl, rfl, rfl, rfl, ?_⟩
  exact (Fifo.of_reachable (h.step hstep)).exactlyOnce

/-- One worker holds the first of two tasks, and that one throws. -/
theorem runs_each_task_once_first_throws :
    ∃ s t, (machine Nat 1 1).run (.initial 1 1)
        [.submit 0 7, .notifyOne 0 none, .submit 0 8, .lock 0] = some s ∧
      ExactlyOnce s ∧ s.step (.finish 0 .threw) = some t ∧ t.workers = [.ready] ∧
      t.tasks = [⟨1, 8⟩] ∧ ExactlyOnce t := by
  obtain ⟨hs, hthrow⟩ := runs_each_task_once (n := 1) (k := 1) (φ := Nat)
    ⟨[.submit 0 7, .notifyOne 0 none, .submit 0 8, .lock 0], rfl⟩
  obtain ⟨t, ht, hworkers, htasks, -, -, -, hexact⟩ := hthrow 0 ⟨0, 7⟩ rfl
  exact ⟨_, t, rfl, hs, ht, hworkers, htasks, hexact⟩

end HttpsServer.ThreadPool
