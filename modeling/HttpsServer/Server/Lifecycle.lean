import HttpsServer.Server

/-!
# HttpsServer.Server.Lifecycle

What `run` leaves behind, and what `stop` prevents.

`run` restores flags and listener in `shutdown`, which it reaches however its
loop ends: with `stop` called before it, between `running_ = true` and `open`,
or inside `accept`.  It does not reach it when `listener_->open()` throws.  So
its end is clean in the runs in which `open` does not throw, or throws before
it has touched the socket and after a `stop` has cleared `running_`
(`restored_iff`).  That no connection is accepted after a `stop` has returned
needs no condition of its own: `stopping_` is never reset, and `open` comes
before the test of it.
-/

namespace HttpsServer.Server

/-- The owner is inside `run`. -/
def Owner.inRun : Owner → Bool
  | .outside => false
  | .tearingDown _ => false
  | .destroying _ => false
  | .destroyed => false
  | _ => true

/-- Outside `run` the server is not running and its listener has no socket;
and when a `stop` has returned, `accept` yields no connection. -/
structure State.Restored (s : State) : Prop where
  ended : s.owner.inRun = false → s.running = false ∧ s.listener.socket = .invalid
  refused : [] ∈ s.stoppers → s.step (.accept true) = none

/-- An `open` that throws leaves nothing to restore: it did not get a socket,
and a `stop` has cleared `running_` before it. -/
def NothingToRestore (s : State) : Action → Prop
  | .openListener (some fault) => fault = .socket ∧ s.running = false
  | _ => True

instance (s : State) (a : Action) : Decidable (NothingToRestore s a) := by
  unfold NothingToRestore; split <;> infer_instance

/-! ## Statements that have taken effect -/

/-- The effect of a statement is there. -/
def State.Done (s : State) : Stmt → Prop
  | .setStopping => s.stopping = true
  | .clearRunning => s.running = false
  | .stopListener => s.listener.socket = .invalid
  | _ => True

/-- A statement takes effect and undoes no other. -/
theorem State.execute_done {s t : State} {x : Stmt} (h : s.execute x = some t) :
    t.Done x ∧ ∀ y, s.Done y → t.Done y := by
  cases x with
  | setStopping | clearRunning | stopListener =>
      cases h
      refine ⟨rfl, fun y hy => ?_⟩
      cases y <;> first | exact hy | rfl
  | shutdownPool | notifyPool =>
      obtain ⟨pool, -, rfl⟩ := poolStep_eq_some.1 h
      refine ⟨trivial, fun y hy => ?_⟩
      cases y <;> exact hy

/-- What has taken effect where the owner stands here. -/
def Owner.Shows (s : State) : Owner → Prop
  | .opening => s.Done .stopListener
  | .accepting => [] ∈ s.stoppers → s.Done .stopListener
  | .closing rest => ∀ x ∈ shutdown, x ∈ rest ∨ s.Done x
  | .outside => s.Done .clearRunning ∧ s.Done .stopListener
  | .tearingDown _ => s.Done .clearRunning ∧ s.Done .stopListener
  | .destroying _ => s.Done .clearRunning ∧ s.Done .stopListener
  | .destroyed => s.Done .clearRunning ∧ s.Done .stopListener
  | _ => True

/-- What shows stays, if nothing is undone and no `stop` returns before it has
stopped the listener. -/
theorem Owner.Shows.mono {s t : State} {o : Owner} (h : o.Shows s)
    (hdone : ∀ x, s.Done x → t.Done x)
    (hstoppers : [] ∈ t.stoppers → [] ∈ s.stoppers ∨ t.Done .stopListener) : o.Shows t := by
  cases o with
  | opening => exact hdone .stopListener h
  | accepting => exact fun hmem => (hstoppers hmem).elim (fun hs => hdone _ (h hs)) id
  | closing rest => exact fun x hx => (h x hx).imp id (hdone x)
  | outside | tearingDown | destroying | destroyed => exact ⟨hdone _ h.1, hdone _ h.2⟩
  | _ => trivial

theorem Owner.Shows.ended {s : State} {o : Owner} (h : o.Shows s) (ho : o.inRun = false) :
    s.Done .clearRunning ∧ s.Done .stopListener := by
  cases o <;> first | exact h | contradiction

/-- The owner's place, and the calls of `stop`: each that has begun has set
`stopping_`. -/
structure Lifecycle (s : State) : Prop where
  shows : s.owner.Shows s
  stoppers : ∀ rest ∈ s.stoppers, rest <:+ stop ∧ (rest = stop ∨ s.Done .setStopping)

theorem Lifecycle.initial (n : Nat) : Lifecycle (.initial n) := ⟨⟨rfl, rfl⟩, nofun⟩

/-- The owner moves on, and the calls of `stop` do not. -/
theorem Lifecycle.move {s t : State} (h : Lifecycle s) (hshows : t.owner.Shows t)
    (hstoppers : t.stoppers = s.stoppers) (hstopping : s.stopping = true → t.stopping = true) :
    Lifecycle t := by
  refine ⟨hshows, fun rest hrest => ?_⟩
  obtain ⟨hsuffix, hset⟩ := h.stoppers rest (hstoppers ▸ hrest)
  exact ⟨hsuffix, hset.imp id hstopping⟩

/-- A step of the workers. -/
theorem Lifecycle.congr {s t : State} (h : Lifecycle s) (howner : t.owner = s.owner)
    (hstoppers : t.stoppers = s.stoppers) (hdone : ∀ x, s.Done x → t.Done x) : Lifecycle t := by
  refine h.move ?_ hstoppers (hdone .setStopping)
  rw [howner]
  exact h.shows.mono hdone fun hmem => .inl (hstoppers ▸ hmem)

/-- A call of `stop` executes a statement. -/
theorem Lifecycle.stopStmt {s t : State} (h : Lifecycle s) {i : Nat} {x : Stmt} {rest : List Stmt}
    (hi : s.stoppers[i]? = some (x :: rest)) (hexec : s.execute x = some t) :
    Lifecycle { t with stoppers := t.stoppers.set i rest } := by
  obtain ⟨hx, hdone⟩ := State.execute_done hexec
  obtain ⟨howner, hstoppers, -, -⟩ := State.execute_frame hexec
  obtain ⟨hsuffix, hset⟩ := h.stoppers _ (List.mem_of_getElem? hi)
  have hmem : ∀ r ∈ t.stoppers.set i rest, r ∈ s.stoppers ∨ r = rest := by
    intro r hr
    rw [hstoppers] at hr
    exact List.mem_or_eq_of_mem_set hr
  constructor
  · show t.owner.Shows _
    rw [howner]
    refine h.shows.mono hdone fun hnil => ?_
    cases hmem _ hnil with
    | inl hbefore => exact .inl hbefore
    | inr hlast =>
        -- the last statement of `stop` is the one that stops the listener
        rw [← hlast] at hsuffix
        obtain ⟨before, hbefore⟩ := hsuffix
        have hx' : x = .stopListener := by simpa [stop] using congrArg List.getLast? hbefore
        rw [hx'] at hx
        exact .inr hx
  · intro r hr
    have hstopping : t.Done .setStopping := by
      cases hset with
      | inl hfirst =>
          cases hfirst
          exact hx
      | inr hbefore => exact hdone .setStopping hbefore
    refine ⟨?_, .inr hstopping⟩
    cases hmem r hr with
    | inl hbefore => exact (h.stoppers r hbefore).1
    | inr heq =>
        rw [heq]
        exact (List.suffix_cons x rest).trans hsuffix

/-- A step keeps `Lifecycle`. -/
theorem Lifecycle.step {s t : State} {a : Action} (h : Lifecycle s) (ha : NothingToRestore s a)
    (hst : Step s a t) : Lifecycle t := by
  have hshows := h.shows
  have hsame : ∀ {u : State}, u.running = s.running → u.stopping = s.stopping →
      u.listener = s.listener → ∀ x, s.Done x → u.Done x := by
    intro u hrunning hstopping hlistener x hx
    cases x with
    | setStopping => exact hstopping.trans hx
    | clearRunning => exact hrunning.trans hx
    | stopListener => exact (congrArg TcpListener.socket hlistener).trans hx
    | shutdownPool | notifyPool => trivial
  cases hst with
  | run hs =>
      rw [hs] at hshows
      exact h.move hshows.2 rfl id
  | opened _ => exact h.move trivial rfl id
  | openThrew hs =>
      obtain ⟨rfl, hrunning⟩ := ha
      rw [hs] at hshows
      exact h.move ⟨hrunning, hshows⟩ rfl id
  | loopContinued _ _ hgoing =>
      refine h.move (fun hnil => ?_) rfl id
      -- no call of `stop` has got further than its first statement
      cases (h.stoppers _ hnil).2 with
      | inl hstop => contradiction
      | inr hset =>
          rw [State.Done, hgoing] at hset
          contradiction
  | loopLeft _ _ => exact h.move (fun x hx => .inl hx) rfl id
  | caught _ =>
      refine h.move ?_ rfl id
      dsimp only
      split
      · exact fun x hx => .inl hx
      · trivial
  | @closingStmt x rest u hs hexec =>
      obtain ⟨hx, hdone⟩ := State.execute_done hexec
      rw [hs] at hshows
      refine h.move (fun y hy => ?_) (State.execute_frame hexec).2.1 (hdone .setStopping)
      cases hshows y hy with
      | inl hmem =>
          rcases List.mem_cons.1 hmem with rfl | hrest
          · exact .inr hx
          · exact .inl hrest
      | inr hbefore => exact .inr (hdone y hbefore)
  | closed hs =>
      rw [hs] at hshows
      have hdone : ∀ x ∈ shutdown, s.Done x := fun x hx =>
        (hshows x hx).resolve_left List.not_mem_nil
      exact h.move ⟨hdone .clearRunning (by decide), hdone .stopListener (by decide)⟩ rfl id
  | tearingDownStmt hs hexec =>
      obtain ⟨-, hdone⟩ := State.execute_done hexec
      rw [hs] at hshows
      exact h.move ⟨hdone .clearRunning hshows.1, hdone .stopListener hshows.2⟩
        (State.execute_frame hexec).2.1 (hdone .setStopping)
  | tornDown hs | destroyCalled hs _ | memberDestroyed hs _ | destroyed hs =>
      rw [hs] at hshows
      exact h.move hshows rfl id
  | poolDestroyed hs _ _ =>
      rw [hs] at hshows
      refine h.move ?_ rfl id
      dsimp only
      split
      · exact hshows
      · rw [hs]
        exact hshows
  | stopCalled _ =>
      have hnil : [] ∈ s.stoppers ++ [stop] → [] ∈ s.stoppers := by simp [stop]
      refine ⟨hshows.mono (hsame rfl rfl rfl) fun hmem => .inl (hnil hmem), fun rest hrest => ?_⟩
      cases List.mem_append.1 hrest with
      | inl hbefore => exact h.stoppers rest hbefore
      | inr hnew =>
          rw [List.mem_singleton.1 hnew]
          exact ⟨List.suffix_refl stop, .inl rfl⟩
  | stopStmt hi hexec => exact h.stopStmt hi hexec
  | woken _ | locked _ | routed _ _ | runReturned _ _ | runThrew _ _ _ _ | decremented _ _
  | taskReturned _ _ _ => exact h.congr rfl rfl (hsame rfl rfl rfl)
  | accepted _ _ | acceptThrew _ | handshakeSucceeded _ | handshakeFailed _ | handshakeThrew _
  | refused _ | submitted _ _ _ | submitThrew _ _ _ | notified _ _ => exact h.move trivial rfl id

/-- Where the owner stands tells that everything is restored. -/
theorem Lifecycle.restored {s : State} (h : Lifecycle s) : s.Restored where
  ended := h.shows.ended
  refused := by
    intro hnil
    by_cases ho : s.owner = .accepting
    · have hshows := h.shows
      rw [ho] at hshows
      have hinvalid : s.listener.socket = .invalid := hshows hnil
      have haccept : s.listener.canAccept = false := by simp [TcpListener.canAccept, hinvalid]
      simp [State.step, haccept]
    · simp [State.step, ho]

/-- An `open` that leaves something to restore leaves it so. -/
theorem not_restored_of_step {s t : State} {a : Action} (ha : ¬ NothingToRestore s a)
    (hst : Step s a t) : ¬ t.Restored := by
  intro ht
  cases hst with
  | @openThrew fault hs =>
      obtain ⟨hrunning, hsocket⟩ := ht.ended rfl
      cases fault with
      | socket => exact ha ⟨rfl, hrunning⟩
      | setsockopt | bind | listen => contradiction
  | _ => exact ha trivial

/-! ## Runs -/

/-- **The server's flags and its listener** are restored after `run`, and
nothing is accepted after a `stop`, in the runs in which an `open` that throws
leaves nothing to restore, and only in these. -/
theorem restored_iff {n : Nat} {as : List Action} {t : State}
    (h : (machine n).run (.initial n) as = some t) :
    (∀ s, (machine n).Passes (.initial n) as s → s.Restored) ↔
      (machine n).Along NothingToRestore (.initial n) as := by
  refine Machine.passes_iff_along (I := fun _ => True) (J := Lifecycle) (fun _ _ _ _ _ => trivial) ?_
    (fun s hs => hs.restored) ?_ h trivial (.initial n)
  · exact fun s a t hs ha hst => hs.step ha (.of_step hst)
  · exact fun s a t _ _ hst ha => not_restored_of_step ha (.of_step hst)

/-- `stop` is called and returns between `running_ = true` and `open`. -/
def stoppedBeforeOpen : List Action :=
  [.run, .callStop, .stopStmt 0, .stopStmt 0, .stopStmt 0, .openListener none, .loopTest,
    .shutdownStmt, .shutdownStmt, .shutdownStmt, .shutdownStmt, .shutdownStmt, .shutdownStmt]

theorem restored_iff_stopped :
    ∃ t, (machine 1).run (.initial 1) stoppedBeforeOpen = some t ∧ t.owner = .outside ∧
      t.running = false ∧ t.listener.socket = .invalid := by
  have hrun : (machine 1).run (.initial 1) stoppedBeforeOpen = some _ := rfl
  have hrestored := (restored_iff hrun).2 (by decide)
  exact ⟨_, hrun, rfl, (hrestored _ (.of_run hrun)).ended rfl⟩

/-- The port is taken: `run` throws, and the server says it is running. -/
theorem not_restored_bind :
    ¬ ∀ (n : Nat) (s : State), (machine n).Reachable s → s.Restored := by
  intro h
  have hreach : (machine 1).Reachable _ := ⟨[.run, .openListener (some .bind)], rfl⟩
  have hended := ((h 1 _ hreach).ended rfl).1
  contradiction

end HttpsServer.Server
