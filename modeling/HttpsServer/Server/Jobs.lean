import HttpsServer.Server.Accounting
import HttpsServer.ThreadPool.Drain

/-!
# HttpsServer.Server.Jobs

The server's connections and the tasks of its pool.

Every run of the server drives its pool through a run of the pool
(`pool_reachable`), so what holds of every pool holds of the server's.  `Jobs`
ties the two together: a connection in the phase `pooled` or `closing` has
exactly one task, which is queued or in the hands of a worker.
-/

namespace HttpsServer.Server

open scoped List

/-! ## The pool in a run of the server -/

/-- A step of the pool that moves no task. -/
def Quiet (p : ThreadPool.State Nat) (b : ThreadPool.Action Nat) : Prop :=
  (∀ w, b ≠ .lock w) ∧ (∀ w outcome, b ≠ .finish w outcome) ∧
    ∀ c f, b = .submit c f → p.accepting = false

/-- A statement of `stop` or `shutdown` moves no task. -/
theorem State.execute_pool {s t : State} {x : Stmt} (h : s.execute x = some t) :
    t.pool = s.pool ∨ ∃ b, s.pool.step b = some t.pool ∧ Quiet s.pool b := by
  cases x with
  | setStopping | clearRunning | stopListener =>
      cases h
      exact .inl rfl
  | shutdownPool =>
      obtain ⟨pool, hpool, rfl⟩ := poolStep_eq_some.1 h
      exact .inr ⟨_, hpool, nofun, nofun, nofun⟩
  | notifyPool =>
      obtain ⟨pool, hpool, rfl⟩ := poolStep_eq_some.1 h
      exact .inr ⟨_, hpool, nofun, nofun, nofun⟩

/-- `~ThreadPool` moves no task. -/
theorem State.quiet_poolDestructor {s : State} {b : ThreadPool.Action Nat}
    (h : s.poolDestructor = some b) : Quiet s.pool b := by
  unfold poolDestructor at h
  split at h <;> cases h
  all_goals exact ⟨nofun, nofun, nofun⟩

/-- A step that moves no task leaves the tasks where they are. -/
theorem Quiet.tasks {p q : ThreadPool.State Nat} {b : ThreadPool.Action Nat} (h : Quiet p b)
    (hstep : p.step b = some q) : q.tasks = p.tasks ∧ q.held ~ p.held := by
  cases (ThreadPool.Step.of_step hstep).transfer with
  | queued hacc => exact absurd (h.2.2 _ _ rfl) (by simp [hacc])
  | taken => exact absurd rfl (h.1 _)
  | ended => exact absurd rfl (h.2.1 _ _)
  | none _ _ htasks _ _ hheld _ => exact ⟨htasks, hheld⟩

theorem State.execute_tasks {s t : State} {x : Stmt} (h : s.execute x = some t) :
    t.pool.tasks = s.pool.tasks ∧ t.pool.held ~ s.pool.held := by
  cases execute_pool h with
  | inl hsame =>
      rw [hsame]
      exact ⟨rfl, .refl _⟩
  | inr hstep =>
      obtain ⟨b, hb, hquiet⟩ := hstep
      exact hquiet.tasks hb

/-- A step of the server leaves its pool alone or takes one step of it. -/
theorem Step.pool {s t : State} {a : Action} (h : Step s a t) :
    t.pool = s.pool ∨ ∃ b, s.pool.step b = some t.pool := by
  have hexecute : ∀ (x : Stmt) (u : State), s.execute x = some u →
      u.pool = s.pool ∨ ∃ b, s.pool.step b = some u.pool := by
    intro x u hexec
    cases State.execute_pool hexec with
    | inl hsame => exact .inl hsame
    | inr hstep =>
        obtain ⟨b, hb, -⟩ := hstep
        exact .inr ⟨b, hb⟩
  cases h with
  | submitted _ _ hpool => exact .inr ⟨_, hpool⟩
  | submitThrew _ _ hpool => exact .inr ⟨_, hpool⟩
  | notified _ hpool => exact .inr ⟨_, hpool⟩
  | @closingStmt x _ u _ hexec => exact hexecute x u hexec
  | @tearingDownStmt x _ u _ hexec => exact hexecute x u hexec
  | @stopStmt _ x _ u _ hexec => exact hexecute x u hexec
  | poolDestroyed _ _ hpool => exact .inr ⟨_, hpool⟩
  | woken hpool => exact .inr ⟨_, hpool⟩
  | locked hpool => exact .inr ⟨_, hpool⟩
  | runThrew _ _ _ hpool => exact .inr ⟨_, hpool⟩
  | taskReturned _ _ hpool => exact .inr ⟨_, hpool⟩
  | _ => exact .inl rfl

/-- **The server uses its pool as a pool may be used**: in every run, the pool
is in a state that a pool with one client can reach. -/
theorem pool_reachable {n : Nat} {s : State} (h : (machine n).Reachable s) :
    (ThreadPool.machine Nat n 1).Reachable s.pool := by
  refine Machine.Reachable.map State.pool .init (fun s a t hst => ?_) h
  cases (Step.of_step hst).pool with
  | inl hsame =>
      rw [hsame]
      exact .refl _
  | inr hstep =>
      obtain ⟨b, hb⟩ := hstep
      exact .of_step (a := b) hb

/-! ## Connections and tasks -/

/-- The connections whose task is in the hands of a worker or queued. -/
def State.jobs (s : State) : List Nat := (s.pool.held ++ s.pool.tasks).map ThreadPool.Task.callable

/-- The phases of a connection whose task a worker holds. -/
def Phase.served : Phase → Bool
  | pooled => true
  | closing => true
  | ended => true
  | _ => false

/-- A connection between `submit` and the end of its handling has one task. -/
structure Jobs (s : State) : Prop where
  nodup : s.jobs.Nodup
  queued : ∀ task ∈ s.pool.tasks, s.connections[task.callable]? = some .pooled
  held : ∀ task ∈ s.pool.held, ∃ p, s.connections[task.callable]? = some p ∧ p.served = true
  job : ∀ (c : Nat) (p : Phase), s.connections[c]? = some p → p = .pooled ∨ p = .closing →
    c ∈ s.jobs

theorem Jobs.initial (n : Nat) : Jobs (.initial n) := by
  have hheld : (State.initial n).pool.held = [] := by
    simp [State.initial, ThreadPool.State.initial, ThreadPool.State.held, ThreadPool.Worker.task?]
  refine ⟨?_, fun task htask => absurd htask List.not_mem_nil, fun task htask => ?_,
    fun c p hc _ => ?_⟩
  · rw [State.jobs, hheld]
    exact List.nodup_nil
  · rw [hheld] at htask
    exact absurd htask List.not_mem_nil
  · exact absurd (List.mem_of_getElem? hc) List.not_mem_nil

/-- The task a worker serves is in its hands. -/
theorem State.runs_of_serving {s : State} {w c : Nat} (h : s.serving w = some c) :
    ∃ task, s.pool.Runs w task ∧ task.callable = c := by
  unfold serving at h
  split at h
  · next hs =>
      cases h
      exact ⟨_, hs, rfl⟩
  · cases h

theorem State.mem_jobs_of_serving {s : State} {w c : Nat} (h : s.serving w = some c) :
    c ∈ s.jobs := by
  obtain ⟨task, hruns, rfl⟩ := State.runs_of_serving h
  refine List.mem_map_of_mem (List.mem_append_left _ ?_)
  exact ThreadPool.State.mem_held_iff.2 ⟨w, hruns⟩

section Steps

variable {s : State}

/-- The phase of a connection that is in the pool. -/
theorem Jobs.served_of_mem (h : Jobs s) {c : Nat} (hc : c ∈ s.jobs) :
    ∃ p, s.connections[c]? = some p ∧ p.served = true := by
  obtain ⟨task, htask, rfl⟩ := List.mem_map.1 hc
  cases List.mem_append.1 htask with
  | inl hheld => exact h.held task hheld
  | inr hqueued => exact ⟨.pooled, h.queued task hqueued, rfl⟩

/-- Steps that leave the connections alone and move no task. -/
theorem Jobs.congr (h : Jobs s) {t : State} (hconn : t.connections = s.connections)
    (htasks : t.pool.tasks = s.pool.tasks) (hheld : t.pool.held ~ s.pool.held) : Jobs t := by
  have hjobs : t.jobs ~ s.jobs := by
    unfold State.jobs
    rw [htasks]
    exact (hheld.append_right _).map _
  refine ⟨hjobs.nodup_iff.2 h.nodup, ?_, ?_, ?_⟩
  · rw [hconn, htasks]
    exact h.queued
  · rw [hconn]
    exact fun task htask => h.held task (hheld.mem_iff.1 htask)
  · rw [hconn]
    exact fun c p hc hp => hjobs.mem_iff.2 (h.job c p hc hp)

/-- A connection outside the pool changes its phase. -/
theorem Jobs.setPhase (h : Jobs s) {c : Nat} (hc : c ∉ s.jobs) {q : Phase} (hpooled : q ≠ .pooled)
    (hclosing : q ≠ .closing) : Jobs (s.setPhase c q) := by
  have hother : ∀ task : ThreadPool.Task Nat, task.callable ∈ s.jobs →
      (s.connections.set c q)[task.callable]? = s.connections[task.callable]? := by
    intro task htask
    have hne : c ≠ task.callable := by
      rintro rfl
      exact hc htask
    exact List.getElem?_set_ne hne
  refine ⟨h.nodup, fun task htask => ?_, fun task htask => ?_, fun c' p hc' hp => ?_⟩
  · rw [State.setPhase_connections, hother task (List.mem_map_of_mem (List.mem_append_right _ htask))]
    exact h.queued task htask
  · rw [State.setPhase_connections, hother task (List.mem_map_of_mem (List.mem_append_left _ htask))]
    exact h.held task htask
  · cases getElem?_set_slot hc' with
    | inl heq => grind
    | inr hbefore => exact h.job c' p hbefore hp

/-- A connection whose task a worker holds changes its phase. -/
theorem Jobs.setPhase_held (h : Jobs s) {w c : Nat} (hw : s.serving w = some c) {q : Phase}
    (hq : q.served = true) : Jobs (s.setPhase c q) := by
  obtain ⟨mine, hruns, rfl⟩ := State.runs_of_serving hw
  have hmine : mine ∈ s.pool.held := ThreadPool.State.mem_held_iff.2 ⟨w, hruns⟩
  obtain ⟨old, hold, -⟩ := h.held mine hmine
  refine ⟨h.nodup, fun task htask => ?_, fun task htask => ?_, fun c' p hc' hp => ?_⟩
  · -- no queued task serves the same connection
    have hne : mine.callable ≠ task.callable := by
      have hnodup := h.nodup
      rw [State.jobs, List.map_append] at hnodup
      exact List.disjoint_of_nodup_append hnodup (List.mem_map_of_mem hmine) ∘
        fun heq => heq ▸ List.mem_map_of_mem htask
    rw [State.setPhase_connections, List.getElem?_set_ne hne]
    exact h.queued task htask
  · by_cases heq : mine.callable = task.callable
    · rw [State.setPhase_connections, ← heq,
        List.getElem?_set_self (List.getElem?_eq_some_iff.1 hold).1]
      exact ⟨q, rfl, hq⟩
    · rw [State.setPhase_connections, List.getElem?_set_ne heq]
      exact h.held task htask
  · by_cases heq : mine.callable = c'
    · exact heq ▸ State.mem_jobs_of_serving hw
    · rw [State.setPhase_connections, List.getElem?_set_ne heq] at hc'
      exact h.job c' p hc' hp

/-- `submit` queues the task of a connection that has none. -/
theorem Jobs.submit (h : Jobs s) {c : Nat} {pool : ThreadPool.State Nat}
    (hc : s.connections[c]? = some .handshaking) (hacc : s.pool.accepting = true)
    (hpool : s.pool.step (.submit 0 c) = some pool) :
    Jobs { s.setPhase c .pooled with pool := pool } := by
  have hnew : c ∉ s.jobs := by
    intro hmem
    obtain ⟨p, hp, hserved⟩ := h.served_of_mem hmem
    rw [hc] at hp
    cases hp
    contradiction
  cases (ThreadPool.Step.of_step hpool).transfer with
  | none hrejected _ _ _ _ _ _ => exact absurd (hrejected _ _ rfl) (by simp [hacc])
  | @queued _ _ _ _ htasks _ _ hheld _ =>
      have hjobs : State.jobs { s.setPhase c .pooled with pool := pool } = s.jobs ++ [c] := by
        simp only [State.jobs, hheld, htasks, ← List.append_assoc, List.map_append]
        rfl
      have hother : ∀ task : ThreadPool.Task Nat, task.callable ∈ s.jobs →
          (s.connections.set c .pooled)[task.callable]? = s.connections[task.callable]? := by
        intro task htask
        have hne : c ≠ task.callable := by
          rintro rfl
          exact hnew htask
        exact List.getElem?_set_ne hne
      refine ⟨?_, fun task htask => ?_, fun task htask => ?_, fun c' p hc' hp => ?_⟩
      · rw [hjobs]
        exact (List.perm_append_singleton c s.jobs).nodup_iff.2 (List.nodup_cons.2 ⟨hnew, h.nodup⟩)
      · simp only [htasks, List.mem_append, List.mem_singleton] at htask
        cases htask with
        | inl hold =>
            exact (hother task (List.mem_map_of_mem (List.mem_append_right _ hold))).trans
              (h.queued task hold)
        | inr heq =>
            rw [heq]
            exact List.getElem?_set_self (List.getElem?_eq_some_iff.1 hc).1
      · simp only [hheld] at htask
        obtain ⟨p, hp, hserved⟩ := h.held task htask
        exact ⟨p, (hother task (List.mem_map_of_mem (List.mem_append_left _ htask))).trans hp, hserved⟩
      · rw [hjobs, List.mem_append, List.mem_singleton]
        by_cases heq : c = c'
        · exact .inr heq.symm
        · rw [State.setPhase_connections, List.getElem?_set_ne heq] at hc'
          exact .inl (h.job c' p hc' hp)

/-- A worker takes a queued task, or goes to sleep or leaves. -/
theorem Jobs.lock (h : Jobs s) {w : Nat} {pool : ThreadPool.State Nat}
    (hpool : s.pool.step (.lock w) = some pool) : Jobs { s with pool := pool } := by
  cases (ThreadPool.Step.of_step hpool).transfer with
  | none _ _ htasks _ _ hheld _ => exact h.congr rfl htasks hheld
  | @taken _ task _ htasks _ _ hheld _ =>
      have hjobs : State.jobs { s with pool := pool } ~ s.jobs := by
        refine List.Perm.map _ ?_
        calc pool.held ++ pool.tasks
            ~ task :: s.pool.held ++ pool.tasks := hheld.append_right _
          _ ~ s.pool.held ++ task :: pool.tasks := List.perm_middle.symm
          _ = s.pool.held ++ s.pool.tasks := by rw [htasks]
      refine ⟨hjobs.nodup_iff.2 h.nodup, fun task' htask' => ?_, fun task' htask' => ?_,
        fun c p hc hp => hjobs.mem_iff.2 (h.job c p hc hp)⟩
      · refine h.queued task' ?_
        rw [htasks]
        exact List.mem_cons_of_mem _ htask'
      · cases List.mem_cons.1 (hheld.mem_iff.1 htask') with
        | inl heq =>
            refine ⟨.pooled, h.queued task' ?_, rfl⟩
            rw [heq, htasks]
            exact List.mem_cons_self
        | inr hold => exact h.held task' hold

/-- The task of a connection whose handling has ended returns. -/
theorem Jobs.finish (h : Jobs s) {w c : Nat} {outcome : ThreadPool.Outcome}
    {pool : ThreadPool.State Nat} (hw : s.serving w = some c)
    (hc : s.connections[c]? = some .ended) (hpool : s.pool.step (.finish w outcome) = some pool) :
    Jobs { s with pool := pool } ∧ c ∉ State.jobs { s with pool := pool } := by
  obtain ⟨mine, hruns, rfl⟩ := State.runs_of_serving hw
  cases (ThreadPool.Step.of_step hpool).transfer with
  | none _ hfinish _ _ _ _ _ => exact absurd rfl (hfinish _ _)
  | @ended _ task _ _ hworker htasks _ _ hheld _ =>
      obtain rfl : mine = task := by
        have := hruns.symm.trans hworker
        simpa using this
      have hjobs : mine.callable :: State.jobs { s with pool := pool } ~ s.jobs := by
        simp only [State.jobs, htasks]
        exact (hheld.append_right s.pool.tasks).map ThreadPool.Task.callable
      have hnodup := List.nodup_cons.1 (hjobs.nodup_iff.2 h.nodup)
      refine ⟨⟨hnodup.2, ?_, fun task htask => ?_, fun c' p hc' hp => ?_⟩, hnodup.1⟩
      · simp only [htasks]
        exact h.queued
      · exact h.held task (hheld.mem_iff.1 (List.mem_cons_of_mem _ htask))
      · cases List.mem_cons.1 (hjobs.mem_iff.2 (h.job c' p hc' hp)) with
        | inr hmem => exact hmem
        | inl heq =>
            -- its own connection is past the phases that need a task
            rw [heq, hc] at hc'
            cases hc'
            cases hp <;> contradiction

end Steps

/-- A step keeps `Jobs`. -/
theorem Jobs.step {s t : State} {a : Action} (h : Jobs s) (hacc : Accounts s) (hst : Step s a t) :
    Jobs t := by
  -- the connection in the owner's hands has no task
  have howner : ∀ c p, s.owner.position = some (c, p) → p.served = false → c ∉ s.jobs := by
    intro c p hpos hserved hmem
    obtain ⟨p', hp', hserved'⟩ := h.served_of_mem hmem
    rw [hacc.position c p hpos, Option.some.injEq] at hp'
    rw [hp', hserved'] at hserved
    contradiction
  -- steps of the pool that move no task
  have hquiet : ∀ {b : ThreadPool.Action Nat} {pool : ThreadPool.State Nat} {o : Owner},
      s.pool.step b = some pool → Quiet s.pool b → Jobs { s with pool := pool, owner := o } :=
    fun hpool hb => h.congr rfl (hb.tasks hpool).1 (hb.tasks hpool).2
  cases hst with
  | accepted _ _ =>
      have hold : ∀ {c : Nat} {p : Phase}, s.connections[c]? = some p →
          (s.connections ++ [Phase.handshaking])[c]? = some p := fun hc => by
        rw [List.getElem?_append_left (List.getElem?_eq_some_iff.1 hc).1, hc]
      refine ⟨h.nodup, fun task htask => hold (h.queued task htask), fun task htask => ?_,
        fun c p hc hp => ?_⟩
      · obtain ⟨p, hp, hserved⟩ := h.held task htask
        exact ⟨p, hold hp, hserved⟩
      · rw [List.getElem?_append] at hc
        split at hc
        · exact h.job c p hc hp
        · have := List.mem_of_getElem? hc
          rw [List.mem_singleton] at this
          cases hp <;> simp_all
  | handshakeFailed hs =>
      have hjobs := h.setPhase (q := .refused) (howner _ _ (by rw [hs]; rfl) rfl) nofun nofun
      exact hjobs.congr rfl rfl (.refl _)
  | handshakeThrew hs =>
      have hjobs := h.setPhase (q := .abandoned) (howner _ _ (by rw [hs]; rfl) rfl) nofun nofun
      exact hjobs.congr rfl rfl (.refl _)
  | refused hs =>
      have hjobs := h.setPhase (q := .ended) (howner _ _ (by rw [hs]; rfl) rfl) nofun nofun
      exact hjobs.congr rfl rfl (.refl _)
  | submitted hs haccepting hpool =>
      have hjobs := h.submit (hacc.position _ _ (by rw [hs]; rfl)) haccepting hpool
      exact hjobs.congr rfl rfl (.refl _)
  | @submitThrew c pool hs hrejecting hpool =>
      have hrejected : Quiet s.pool (.submit 0 c) := ⟨nofun, nofun, fun _ _ _ => hrejecting⟩
      have hjobs := h.setPhase (q := .abandoned) (howner _ _ (by rw [hs]; rfl) rfl) nofun nofun
      exact hjobs.congr rfl (hrejected.tasks hpool).1 (hrejected.tasks hpool).2
  | runReturned hw _ => exact h.setPhase_held hw rfl
  | @runThrew w c result pool hw hc _ hpool =>
      -- the task ends, and then the connection is outside the pool
      have hended := h.setPhase_held hw (q := .ended) rfl
      have hself : (s.setPhase c .ended).connections[c]? = some .ended :=
        List.getElem?_set_self (List.getElem?_eq_some_iff.1 hc).1
      have ⟨hfinished, hout⟩ := Jobs.finish (s := s.setPhase c .ended) hended hw hself hpool
      have hjobs := hfinished.setPhase hout (q := .abandoned) nofun nofun
      refine hjobs.congr ?_ rfl (.refl _)
      exact (List.set_set ..).symm
  | decremented hw _ =>
      have hjobs := h.setPhase_held hw (q := .ended) rfl
      exact hjobs.congr rfl rfl (.refl _)
  | taskReturned hw hc hpool => exact (h.finish hw hc hpool).1
  | locked hpool => exact h.lock hpool
  | woken hpool => exact hquiet hpool ⟨nofun, nofun, nofun⟩
  | notified _ hpool => exact hquiet hpool ⟨nofun, nofun, nofun⟩
  | poolDestroyed _ hdes hpool => exact hquiet hpool (State.quiet_poolDestructor hdes)
  | @closingStmt x rest u _ hexec =>
      have hsame := State.execute_tasks hexec
      exact h.congr (State.execute_frame hexec).2.2.1 hsame.1 hsame.2
  | @tearingDownStmt x rest u _ hexec =>
      have hsame := State.execute_tasks hexec
      exact h.congr (State.execute_frame hexec).2.2.1 hsame.1 hsame.2
  | @stopStmt i x rest u _ hexec =>
      have hsame := State.execute_tasks hexec
      exact h.congr (State.execute_frame hexec).2.2.1 hsame.1 hsame.2
  | _ => exact h.congr rfl rfl (.refl _)

/-- Every reachable state has `Accounts`. -/
theorem Accounts.of_reachable {n : Nat} {s : State} (h : (machine n).Reachable s) : Accounts s :=
  h.invariant (.initial n) fun _ _ _ hs hst => hs.step (.of_step hst)

/-- Every reachable state has `Jobs`. -/
theorem Jobs.of_reachable {n : Nat} {s : State} (h : (machine n).Reachable s) : Jobs s := by
  have hboth : Accounts s ∧ Jobs s := by
    refine h.invariant (I := fun s => Accounts s ∧ Jobs s) ⟨.initial n, .initial n⟩ ?_
    intro s a t hs hst
    have hst := Step.of_step hst
    exact ⟨hs.1.step hst, hs.2.step hs.1 hst⟩
  exact hboth.2

end HttpsServer.Server
