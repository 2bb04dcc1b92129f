import HttpsServer.Server.Accounting
import HttpsServer.ServerConfig

/-!
# HttpsServer.Server.Limit

The number of live connections against `max_connections`.

A connection is live from `accept` until its handling ends: while it shakes
hands, waits in the pool's queue or is served.  Only `accept` makes the number
grow, and `run` accepts without asking how many there are: the limit holds in
the runs in which no socket arrives at a full server, and a client that keeps
connecting exceeds every limit (`limit_iff`).
-/

namespace HttpsServer.Server

/-- The server that is constructed from a configuration, on a machine that
reports this `std::thread::hardware_concurrency()`. -/
def configured (config : ServerConfig) (hardwareConcurrency : Nat) : Machine State Action :=
  machine (ThreadPool.workerCount config.workerThreads.toNat hardwareConcurrency)

/-- No more connections are live than `max_connections`. -/
def State.WithinLimit (config : ServerConfig) (s : State) : Prop :=
  s.live ≤ config.maxConnections.toNat

instance (config : ServerConfig) (s : State) : Decidable (s.WithinLimit config) := by
  unfold State.WithinLimit; infer_instance

/-- `accept` does not return a socket while the server is full. -/
def HasRoom (config : ServerConfig) (s : State) (a : Action) : Prop :=
  a = .accept true → s.live < config.maxConnections.toNat

instance (config : ServerConfig) (s : State) (a : Action) : Decidable (HasRoom config s a) := by
  unfold HasRoom; infer_instance

/-! ## The number of live connections -/

/-- A connection that is being handled moves on to another phase. -/
theorem live_set_le {ps : List Phase} {c : Nat} {p : Phase} (q : Phase) (hc : ps[c]? = some p)
    (hp : p.over = false) :
    ((ps.set c q).countP fun p => !p.over) ≤ ps.countP fun p => !p.over := by
  have hcount := countP_set_slot (fun p : Phase => !p.over) q hc
  simp only [hp, Bool.not_false, if_true] at hcount
  split at hcount <;> omega

/-- **Only `accept` adds a live connection**, and it adds one. -/
theorem Accounts.live_step {s t : State} {a : Action} (h : Accounts s) (hst : Step s a t) :
    t.live ≤ s.live ∨ a = .accept true ∧ t.live = s.live + 1 := by
  cases hst with
  | accepted _ _ => exact .inr ⟨rfl, by simp [State.live, Phase.over]⟩
  | handshakeFailed hs => exact .inl (live_set_le _ (h.position _ _ (by rw [hs]; rfl)) rfl)
  | handshakeThrew hs => exact .inl (live_set_le _ (h.position _ _ (by rw [hs]; rfl)) rfl)
  | refused hs => exact .inl (live_set_le _ (h.position _ _ (by rw [hs]; rfl)) rfl)
  | submitted hs _ _ => exact .inl (live_set_le _ (h.position _ _ (by rw [hs]; rfl)) rfl)
  | submitThrew hs _ _ => exact .inl (live_set_le _ (h.position _ _ (by rw [hs]; rfl)) rfl)
  | runReturned _ hc => exact .inl (live_set_le _ hc rfl)
  | runThrew _ hc _ _ => exact .inl (live_set_le _ hc rfl)
  | decremented _ hc => exact .inl (live_set_le _ hc rfl)
  | closingStmt _ hexec | tearingDownStmt _ hexec | stopStmt _ hexec =>
      obtain ⟨-, -, hconn, -⟩ := State.execute_frame hexec
      exact .inl (by simp [State.live, hconn])
  | _ => exact .inl le_rfl

/-- An accepted connection is live. -/
theorem live_accept {s t : State} (hst : Step s (.accept true) t) : t.live = s.live + 1 := by
  cases hst with
  | accepted _ _ => simp [State.live, Phase.over]

/-! ## A flood -/

/-- The server has queued `k` connections, none of which a worker has taken up,
and waits for the next. -/
structure Flooded (s : State) (k : Nat) : Prop where
  owner : s.owner = .accepting
  going : s.running = true ∧ s.stopping = false ∧ s.listener.canAccept = true
  pool : s.pool.accepting = true ∧ s.pool.clients = [.idle] ∧
    s.pool.workers.any ThreadPool.Worker.isAsleep = false
  connections : s.connections = List.replicate k .pooled

theorem Flooded.live {s : State} {k : Nat} (h : Flooded s k) : s.live = k := by
  rw [State.live, h.connections, List.countP_replicate]
  rfl

/-- `run` gets to its first `accept`. -/
theorem flooded_zero (n : Nat) : ∃ s, (machine n).Reachable s ∧ Flooded s 0 := by
  refine ⟨_, ⟨[.run, .openListener none, .loopTest], rfl⟩, rfl, ⟨rfl, rfl, rfl⟩, ⟨rfl, rfl, ?_⟩, rfl⟩
  simp [machine, State.initial, ThreadPool.State.initial, ThreadPool.Worker.isAsleep]

/-- The next socket is accepted, shakes hands and is queued. -/
theorem Flooded.next {n k : Nat} {s : State} (h : Flooded s k) :
    ∃ t, (machine n).Reaches s t ∧ Flooded t (k + 1) := by
  obtain ⟨howner, ⟨hrunning, hstopping, haccept⟩, ⟨hopen, hclients, hawake⟩, hconn⟩ := h
  let task : ThreadPool.Task Nat := ⟨s.pool.accepted.length, k⟩
  let queued : ThreadPool.State Nat :=
    { s.pool with
      tasks := s.pool.tasks ++ [task]
      clients := [.notifyOne]
      accepted := s.pool.accepted ++ [task] }
  have hsubmit : s.pool.step (.submit 0 k) = some queued := by
    simp [ThreadPool.State.step, ThreadPool.State.submit, hclients, hopen, queued, task]
  -- no worker has gone to sleep, so nobody is woken
  have hnotify : queued.step (.notifyOne 0 none) = some { queued with clients := [.idle] } := by
    have hclient : queued.clients[(0 : Nat)]? = some .notifyOne := rfl
    have hnone : ¬ queued.workers.any ThreadPool.Worker.isAsleep = true := Bool.eq_false_iff.1 hawake
    rw [ThreadPool.State.step, if_pos hclient, ThreadPool.State.notifyOne, if_neg hnone]
    rfl
  have hset : (List.replicate k Phase.pooled ++ [Phase.handshaking]).set k .pooled =
      List.replicate (k + 1) .pooled := by
    rw [List.set_append_right _ _ (by simp), List.replicate_succ']
    simp
  refine ⟨{ s with
      pool := { queued with clients := [.idle] }
      connections := List.replicate (k + 1) .pooled
      activeConnections := s.activeConnections + 1 },
    ⟨[.accept true, .handshake .succeeded, .submit, .notifyOne none, .loopTest], ?_⟩,
    howner, ⟨hrunning, hstopping, haccept⟩, ⟨hopen, rfl, hawake⟩, rfl⟩
  simp [Machine.run, machine, State.step, State.handshake, State.submit, State.poolStep,
    State.setPhase, howner, hrunning, hstopping, haccept, hopen, hconn, hset, hsubmit, hnotify]

/-- **However small the limit, a flood passes it.** -/
theorem exists_flooded (n k : Nat) : ∃ s, (machine n).Reachable s ∧ Flooded s k := by
  induction k with
  | zero => exact flooded_zero n
  | succ k ih =>
      obtain ⟨s, hs, hflood⟩ := ih
      obtain ⟨t, ht, hnext⟩ := hflood.next
      exact ⟨t, hs.reaches ht, hnext⟩

/-! ## The limit -/

/-- **The connection limit** holds in the runs in which every accepted socket
finds room, and only in these; and there are others, whatever the limit. -/
theorem limit_iff (config : ServerConfig) (hardwareConcurrency : Nat) :
    (∀ as t, (configured config hardwareConcurrency).run
        (configured config hardwareConcurrency).init as = some t →
      ((∀ s, (configured config hardwareConcurrency).Passes
          (configured config hardwareConcurrency).init as s → s.WithinLimit config) ↔
        (configured config hardwareConcurrency).Along (HasRoom config)
          (configured config hardwareConcurrency).init as)) ∧
    ∃ s, (configured config hardwareConcurrency).Reachable s ∧ ¬ s.WithinLimit config := by
  constructor
  · intro as t h
    refine Machine.passes_iff_along (I := Accounts) (J := fun s => Accounts s ∧ s.WithinLimit config)
      ?_ ?_ (fun s hs => hs.2) ?_ h (.initial _) ⟨.initial _, Nat.zero_le _⟩
    · exact fun s a t hs hst => hs.step (.of_step hst)
    · rintro s a t ⟨hs, hwithin⟩ hroom hst
      have hst := Step.of_step hst
      refine ⟨hs.step hst, ?_⟩
      unfold State.WithinLimit at hwithin ⊢
      rcases hs.live_step hst with hle | ⟨ha, hlive⟩
      · omega
      · have := hroom ha
        omega
    · intro s a t _ _ hst hroom hwithin
      obtain ⟨rfl, hfull⟩ : a = .accept true ∧ ¬ s.live < config.maxConnections.toNat := by
        simpa [HasRoom] using hroom
      have := live_accept (.of_step hst)
      unfold State.WithinLimit at hwithin
      omega
  · obtain ⟨s, hs, hflood⟩ := exists_flooded _ (config.maxConnections.toNat + 1)
    refine ⟨s, hs, ?_⟩
    have := hflood.live
    unfold State.WithinLimit
    omega

/-- Two connections in turn at a server for one. -/
theorem limit_iff_served :
    ∃ t, (configured { maxConnections := 1 } 8).run (.initial 4)
        [.run, .openListener none, .loopTest, .accept true, .handshake .failed, .refuse, .loopTest,
          .accept true] = some t ∧ t.connections = [.ended, .handshaking] ∧
      t.WithinLimit { maxConnections := 1 } := by
  have hrun : (configured { maxConnections := 1 } 8).run (.initial 4)
      [.run, .openListener none, .loopTest, .accept true, .handshake .failed, .refuse, .loopTest,
        .accept true] = some _ := rfl
  have hwithin := ((limit_iff { maxConnections := 1 } 8).1 _ _ hrun).2 (by decide)
  exact ⟨_, hrun, rfl, hwithin _ (.of_run hrun)⟩

/-- A second connection is accepted while the first waits for a worker. -/
theorem not_limit_second :
    ¬ ∀ (config : ServerConfig) (hardwareConcurrency : Nat), config.validate = .ok () →
      ∀ s, (configured config hardwareConcurrency).Reachable s → s.WithinLimit config := by
  intro h
  have hreach : (configured { maxConnections := 1 } 8).Reachable _ :=
    ⟨[.run, .openListener none, .loopTest, .accept true, .handshake .succeeded, .submit,
      .notifyOne none, .loopTest, .accept true], rfl⟩
  have hlive := h { maxConnections := 1 } 8 rfl _ hreach
  exact absurd hlive (by decide)

end HttpsServer.Server
