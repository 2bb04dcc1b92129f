import HttpsServer.Server

/-!
# HttpsServer.Server.Accounting

What `active_connections_` counts.

`handle_connection` increments the counter for every accepted connection.  It
is decremented at the end of the connection's task and after a failed
handshake, but not where an exception leaves `handle_connection` or the task.
So the counter is the number of connections that have not been counted out
(`Accounts`), which is the number of live connections as long as no such
exception has been thrown (`accounted_iff`).
-/

namespace HttpsServer.Server

/-- The counter tells how many connections are being handled; it is zero once
every connection has ended. -/
structure State.Accounted (s : State) : Prop where
  count : s.activeConnections = s.live
  drained : (∀ p ∈ s.connections, p.over = true) → s.activeConnections = 0

/-- An exception leaves `handle_connection` or a connection task. -/
def State.abandons (s : State) : Action → Bool
  | .handshake .threw => true
  | .submit => !s.pool.accepting
  | .endRun _ result => result.throws
  | _ => false

/-- The connections that have not been counted out. -/
def State.counted (s : State) : Nat := s.connections.countP fun p => p != .ended

/-- The connection the owner is handling, and its phase. -/
def Owner.position : Owner → Option (Nat × Phase)
  | handshaking c => some (c, .handshaking)
  | submitting c => some (c, .handshaking)
  | refusing c => some (c, .refused)
  | _ => none

/-- The counter, and the connection in the owner's hands. -/
structure Accounts (s : State) : Prop where
  count : s.activeConnections = s.counted
  position : ∀ c p, s.owner.position = some (c, p) → s.connections[c]? = some p

theorem Accounts.initial (n : Nat) : Accounts (.initial n) where
  count := rfl
  position := by
    intro c p h
    cases h

/-- The owner's connection keeps its phase while a connection in another phase
moves on. -/
theorem Accounts.position_set {s : State} (h : Accounts s) {c : Nat} {p : Phase} (q : Phase)
    (hc : s.connections[c]? = some p) (hp : p ≠ .handshaking ∧ p ≠ .refused) {c' : Nat}
    {p' : Phase} (hpos : s.owner.position = some (c', p')) :
    (s.connections.set c q)[c']? = some p' := by
  refine getElem?_set_slot_of_ne hc (h.position c' p' hpos) ?_
  rintro rfl
  cases howner : s.owner <;> simp_all [Owner.position]

/-- Steps that leave the connections and the counter alone. -/
theorem Accounts.congr {s t : State} (h : Accounts s) (hconn : t.connections = s.connections)
    (hactive : t.activeConnections = s.activeConnections)
    (hpos : ∀ c p, t.owner.position = some (c, p) → s.owner.position = some (c, p)) :
    Accounts t where
  count := by
    rw [hactive, State.counted, hconn]
    exact h.count
  position := by
    intro c p ht
    rw [hconn]
    exact h.position c p (hpos c p ht)

/-- A connection moves between two phases that are counted. -/
theorem Accounts.count_set {s : State} (h : Accounts s) {c : Nat} {p q : Phase}
    (hc : s.connections[c]? = some p) (hp : p ≠ .ended) (hq : q ≠ .ended) :
    s.activeConnections = (s.connections.set c q).countP fun p => p != .ended := by
  have hcount := countP_set_slot (fun p => p != .ended) q hc
  have := h.count
  simp only [State.counted, bne_iff_ne, ne_eq, hp, hq, not_false_eq_true, ↓reduceIte]
    at this hcount
  omega

/-- A connection is counted out. -/
theorem Accounts.count_ended {s : State} (h : Accounts s) {c : Nat} {p : Phase}
    (hc : s.connections[c]? = some p) (hp : p ≠ .ended) :
    s.activeConnections - 1 = (s.connections.set c .ended).countP fun p => p != .ended := by
  have hcount := countP_set_slot (fun p => p != .ended) .ended hc
  have := h.count
  simp only [State.counted, bne_iff_ne, ne_eq, hp, not_false_eq_true, not_true_eq_false,
    ↓reduceIte] at this hcount
  omega

/-- A step keeps `Accounts`. -/
theorem Accounts.step {s t : State} {a : Action} (h : Accounts s) (hst : Step s a t) :
    Accounts t := by
  cases hst with
  | accepted _ _ =>
      refine ⟨by simp [h.count, State.counted], fun c p hpos => ?_⟩
      cases hpos
      simp
  | handshakeSucceeded hs => exact h.congr rfl rfl fun _ _ hpos => by rw [hs]; exact hpos
  | @handshakeFailed c hs =>
      have hc := h.position c _ (by rw [hs]; rfl)
      refine ⟨h.count_set hc (by simp) (by simp), fun c' p' hpos => ?_⟩
      cases hpos
      exact List.getElem?_set_self (List.getElem?_eq_some_iff.1 hc).1
  | @handshakeThrew c hs =>
      have hc := h.position c _ (by rw [hs]; rfl)
      exact ⟨h.count_set hc (by simp) (by simp), nofun⟩
  | @refused c hs =>
      have hc := h.position c _ (by rw [hs]; rfl)
      exact ⟨h.count_ended hc (by simp), nofun⟩
  | @submitted c pool hs _ _ =>
      have hc := h.position c _ (by rw [hs]; rfl)
      exact ⟨h.count_set hc (by simp) (by simp), nofun⟩
  | @submitThrew c pool hs _ _ =>
      have hc := h.position c _ (by rw [hs]; rfl)
      exact ⟨h.count_set hc (by simp) (by simp), nofun⟩
  | runReturned _ hc =>
      exact ⟨h.count_set hc (by simp) (by simp), fun _ _ => h.position_set _ hc (by simp)⟩
  | runThrew _ hc _ _ =>
      exact ⟨h.count_set hc (by simp) (by simp), fun _ _ => h.position_set _ hc (by simp)⟩
  | decremented _ hc =>
      exact ⟨h.count_ended hc (by simp), fun _ _ => h.position_set _ hc (by simp)⟩
  | caught _ =>
      refine h.congr rfl rfl fun c p hpos => ?_
      dsimp only at hpos
      split at hpos <;> cases hpos
  | poolDestroyed hs _ _ =>
      refine h.congr rfl rfl fun c p hpos => ?_
      dsimp only at hpos
      split at hpos
      · cases hpos
      · exact hpos
  | closingStmt _ hexec =>
      obtain ⟨-, -, hconn, hactive⟩ := State.execute_frame hexec
      exact h.congr hconn hactive nofun
  | tearingDownStmt _ hexec =>
      obtain ⟨-, -, hconn, hactive⟩ := State.execute_frame hexec
      exact h.congr hconn hactive nofun
  | stopStmt _ hexec =>
      obtain ⟨howner, -, hconn, hactive⟩ := State.execute_frame hexec
      exact h.congr hconn hactive fun _ _ hpos => howner ▸ hpos
  | stopCalled _ => exact h.congr rfl rfl fun _ _ hpos => hpos
  | woken _ => exact h.congr rfl rfl fun _ _ hpos => hpos
  | locked _ => exact h.congr rfl rfl fun _ _ hpos => hpos
  | routed _ _ => exact h
  | taskReturned _ _ _ => exact h.congr rfl rfl fun _ _ hpos => hpos
  | _ => exact h.congr rfl rfl nofun

/-! ## Where the counter is right -/

/-- Some connection has been left by an exception. -/
def State.Leaked (s : State) : Prop := Phase.abandoned ∈ s.connections

/-- The counter exceeds the live connections by the abandoned ones. -/
theorem State.counted_eq (s : State) :
    s.counted = s.live + s.connections.countP fun p => p == .abandoned := by
  unfold counted live
  induction s.connections with
  | nil => rfl
  | cons p ps ih =>
      simp only [List.countP_cons, ih]
      cases p <;> simp [Phase.over] <;> omega

theorem Accounts.accounted_iff_not_leaked {s : State} (h : Accounts s) : s.Accounted ↔ ¬ s.Leaked := by
  have hcount : s.activeConnections = s.live + s.connections.countP fun p => p == .abandoned :=
    h.count.trans s.counted_eq
  have hlost : s.connections.countP (fun p => p == .abandoned) = 0 ↔ ¬ s.Leaked := by
    rw [List.countP_eq_zero, State.Leaked]
    simp only [beq_iff_eq]
    exact ⟨fun hne hmem => hne _ hmem rfl, fun hnot p hp heq => hnot (heq ▸ hp)⟩
  constructor
  · intro hacc
    rw [← hlost]
    have := hacc.count
    omega
  · intro hleak
    have hlive : s.activeConnections = s.live := by
      rw [hcount, hlost.2 hleak, Nat.add_zero]
    refine ⟨hlive, fun hover => ?_⟩
    rw [hlive, State.live, List.countP_eq_zero]
    simpa using hover

/-- A connection leaks where an exception leaves its handling, and nowhere
else. -/
theorem Accounts.leaked_iff {s t : State} {a : Action} (h : Accounts s) (hst : Step s a t) :
    t.Leaked ↔ s.Leaked ∨ s.abandons a = true := by
  have hset : ∀ {c : Nat} {p : Phase} (q : Phase), s.connections[c]? = some p → p ≠ .abandoned →
      (.abandoned ∈ s.connections.set c q ↔ s.Leaked ∨ q = .abandoned) := by
    intro c p q hc hp
    constructor
    · intro hmem
      cases List.mem_or_eq_of_mem_set hmem with
      | inl hbefore => exact .inl hbefore
      | inr heq => exact .inr heq.symm
    · rintro (hleak | rfl)
      · obtain ⟨i, hi⟩ := List.mem_iff_getElem?.1 hleak
        exact List.mem_of_getElem? (getElem?_set_slot_of_ne hc hi hp)
      · exact List.mem_set (List.getElem?_eq_some_iff.1 hc).1 _
  have hposition : ∀ {c : Nat} {p : Phase}, s.owner.position = some (c, p) →
      s.connections[c]? = some p := h.position _ _
  cases hst with
  | accepted _ _ => simp [State.Leaked, State.abandons]
  | handshakeFailed hs =>
      have hc := hposition (by rw [hs]; rfl)
      simpa [State.Leaked, State.abandons] using hset .refused hc (by simp)
  | handshakeThrew hs =>
      have hc := hposition (by rw [hs]; rfl)
      simpa [State.Leaked, State.abandons] using hset .abandoned hc (by simp)
  | refused hs =>
      have hc := hposition (by rw [hs]; rfl)
      simpa [State.Leaked, State.abandons] using hset .ended hc (by simp)
  | submitted hs hacc _ =>
      have hc := hposition (by rw [hs]; rfl)
      simpa [State.Leaked, State.abandons, hacc] using hset .pooled hc (by simp)
  | submitThrew hs hacc _ =>
      have hc := hposition (by rw [hs]; rfl)
      simpa [State.Leaked, State.abandons, hacc] using hset .abandoned hc (by simp)
  | runReturned _ hc => simpa [State.Leaked, State.abandons, RunEnd.throws] using hset .closing hc (by simp)
  | runThrew _ hc hthrows _ => simpa [State.Leaked, State.abandons, hthrows] using hset .abandoned hc (by simp)
  | decremented _ hc => simpa [State.Leaked, State.abandons] using hset .ended hc (by simp)
  | closingStmt _ hexec =>
      obtain ⟨-, -, hconn, -⟩ := State.execute_frame hexec
      simp [State.Leaked, State.abandons, hconn]
  | tearingDownStmt _ hexec =>
      obtain ⟨-, -, hconn, -⟩ := State.execute_frame hexec
      simp [State.Leaked, State.abandons, hconn]
  | stopStmt _ hexec =>
      obtain ⟨-, -, hconn, -⟩ := State.execute_frame hexec
      simp [State.Leaked, State.abandons, hconn]
  | _ => simp [State.Leaked, State.abandons]

/-- **The counter is right in the runs in which no exception leaves a
connection's handling, and only in these.** -/
theorem accounted_iff {n : Nat} {as : List Action} {t : State}
    (h : (machine n).run (.initial n) as = some t) :
    (∀ s, (machine n).Passes (.initial n) as s → s.Accounted) ↔
      (machine n).Along (fun s a => s.abandons a = false) (.initial n) as := by
  refine Machine.passes_iff_along (I := Accounts) (J := fun s => Accounts s ∧ ¬ s.Leaked) ?_ ?_ ?_ ?_
    h (.initial n) ⟨.initial n, List.not_mem_nil⟩
  · exact fun s a t hs hst => hs.step (.of_step hst)
  · intro s a t hs hP hst
    have hst := Step.of_step hst
    refine ⟨hs.1.step hst, fun hleak => ?_⟩
    cases (hs.1.leaked_iff hst).1 hleak with
    | inl hbefore => exact hs.2 hbefore
    | inr habandons => simp [hP] at habandons
  · exact fun s hs => hs.1.accounted_iff_not_leaked.2 hs.2
  · intro s a t hs _ hst habandons hacc
    have hst := Step.of_step hst
    refine (hs.step hst).accounted_iff_not_leaked.1 hacc ((hs.leaked_iff hst).2 (.inr ?_))
    exact Bool.not_eq_false _ ▸ habandons

/-- A run in which one connection is served and one is refused. -/
def servedRun : List Action :=
  [.run, .openListener none, .loopTest, .accept true, .handshake .succeeded, .submit,
    .notifyOne none, .loopTest, .accept true, .handshake .failed, .lock 0, .route 0,
    .endRun 0 .returned, .decrement 0, .refuse, .taskReturns 0]

theorem accounted_iff_served :
    ∃ t, (machine 1).run (.initial 1) servedRun = some t ∧ t.connections = [.ended, .ended] ∧
      t.Accounted := by
  have hrun : (machine 1).run (.initial 1) servedRun = some _ := rfl
  have haccounted := (accounted_iff hrun).2 (by decide)
  exact ⟨_, hrun, rfl, haccounted _ (.of_run hrun)⟩

/-- A request that cannot be parsed ends its task with an exception: nothing is
left to do for the connection, and it is counted for ever. -/
theorem not_accounted_malformedRequest :
    ¬ ∀ (n : Nat) (s : State), (machine n).Reachable s → s.Accounted := by
  intro h
  have hreach : (machine 1).Reachable _ :=
    ⟨[.run, .openListener none, .loopTest, .accept true, .handshake .succeeded, .submit,
      .notifyOne none, .lock 0, .endRun 0 .malformedRequest], rfl⟩
  have hdrained := (h 1 _ hreach).drained (by decide)
  contradiction

end HttpsServer.Server
