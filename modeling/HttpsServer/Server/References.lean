import HttpsServer.Server.Jobs

/-!
# HttpsServer.Server.References

How a connection moves through its phases, and who keeps it.

A step of the server moves one connection from one phase to another, or none
(`Step.connections_eq`).  A connection is kept by the frame of
`handle_connection`, which holds the last one accepted (`Newest`), and by its
task.  What nobody keeps any more, nobody gets hold of again
(`Step.references_mono`).
-/

namespace HttpsServer.Server

/-! ## Phases -/

/-- The step takes connection `c` from one phase to another. -/
inductive Moves (s : State) : Action → Nat → Phase → Phase → Prop
  | refused {c : Nat} : s.owner = .handshaking c →
      Moves s (.handshake .failed) c .handshaking .refused
  | handshakeThrew {c : Nat} : s.owner = .handshaking c →
      Moves s (.handshake .threw) c .handshaking .abandoned
  | countedOut {c : Nat} : s.owner = .refusing c → Moves s .refuse c .refused .ended
  | submitted {c : Nat} : s.owner = .submitting c → Moves s .submit c .handshaking .pooled
  | submitThrew {c : Nat} : s.owner = .submitting c → Moves s .submit c .handshaking .abandoned
  | returned {w c : Nat} : s.serving w = some c → Moves s (.endRun w .returned) c .pooled .closing
  | runThrew {w c : Nat} {result : RunEnd} : s.serving w = some c →
      Moves s (.endRun w result) c .pooled .abandoned
  | ended {w c : Nat} : s.serving w = some c → Moves s (.decrement w) c .closing .ended

/-- **Step**: the connections stay where they are, a new one is accepted, or one
moves on. -/
theorem Step.connections_eq {s t : State} {a : Action} (hacc : Accounts s) (h : Step s a t) :
    t.connections = s.connections ∨
      (a = .accept true ∧ t.connections = s.connections ++ [.handshaking]) ∨
      ∃ c p q, Moves s a c p q ∧ s.connections[c]? = some p ∧
        t.connections = s.connections.set c q := by
  have hposition : ∀ {c : Nat} {p : Phase}, s.owner.position = some (c, p) →
      s.connections[c]? = some p := hacc.position _ _
  cases h with
  | accepted _ _ => exact .inr (.inl ⟨rfl, rfl⟩)
  | handshakeFailed hs =>
      exact .inr (.inr ⟨_, _, _, .refused hs, hposition (by rw [hs]; rfl), rfl⟩)
  | handshakeThrew hs =>
      exact .inr (.inr ⟨_, _, _, .handshakeThrew hs, hposition (by rw [hs]; rfl), rfl⟩)
  | refused hs =>
      exact .inr (.inr ⟨_, _, _, .countedOut hs, hposition (by rw [hs]; rfl), rfl⟩)
  | submitted hs _ _ =>
      exact .inr (.inr ⟨_, _, _, .submitted hs, hposition (by rw [hs]; rfl), rfl⟩)
  | submitThrew hs _ _ =>
      exact .inr (.inr ⟨_, _, _, .submitThrew hs, hposition (by rw [hs]; rfl), rfl⟩)
  | runReturned hw hc => exact .inr (.inr ⟨_, _, _, .returned hw, hc, rfl⟩)
  | runThrew hw hc _ _ => exact .inr (.inr ⟨_, _, _, .runThrew hw, hc, rfl⟩)
  | decremented hw hc => exact .inr (.inr ⟨_, _, _, .ended hw, hc, rfl⟩)
  | closingStmt _ hexec | tearingDownStmt _ hexec | stopStmt _ hexec =>
      exact .inl (State.execute_frame hexec).2.2.1
  | _ => exact .inl rfl

/-- `handshake` has succeeded, and `run` has not ended. -/
def State.Admitted (s : State) (c : Nat) : Prop :=
  s.connections[c]? = some .pooled ∨ s.owner = .submitting c

/-- How the owner comes to a call that admits a connection. -/
inductive Enters (s : State) : Action → Owner → Prop
  | accepting : s.owner = .looping → s.running = true → s.stopping = false →
      Enters s .loopTest .accepting
  | handshaking : s.owner = .accepting → Enters s (.accept true) (.handshaking s.connections.length)
  | submitting {c : Nat} : s.owner = .handshaking c → Enters s (.handshake .succeeded) (.submitting c)

/-- The owner is before `accept`, `handshake` or `submit`. -/
def Owner.admits : Owner → Bool
  | accepting | handshaking _ | submitting _ => true
  | _ => false

/-- The owner is there already, or it comes there. -/
theorem Step.enters {s t : State} {a : Action} (h : Step s a t) (ht : t.owner.admits = true) :
    t.owner = s.owner ∨ Enters s a t.owner := by
  cases h with
  | loopContinued hs hrunning hstop => exact .inr (.accepting hs hrunning hstop)
  | accepted hs _ => exact .inr (.handshaking hs)
  | handshakeSucceeded hs => exact .inr (.submitting hs)
  | stopStmt _ hexec => exact .inl (State.execute_frame hexec).1
  | caught =>
      dsimp only at ht
      split at ht <;> cases ht
  | poolDestroyed hs _ _ =>
      dsimp only at ht
      split at ht
      · cases ht
      · rw [hs] at ht
        cases ht
  | stopCalled | woken | locked | routed | runReturned | runThrew | decremented | taskReturned =>
      exact .inl rfl
  | _ => cases ht

/-- The owner comes to `submit` by a handshake that succeeds. -/
theorem Step.submitting_back {s t : State} {a : Action} (h : Step s a t)
    (ha : a ≠ .handshake .succeeded) {c : Nat} (ht : t.owner = .submitting c) :
    s.owner = .submitting c := by
  have henters := h.enters (by rw [ht]; rfl)
  rw [ht] at henters
  rcases henters with hsame | henters
  · exact hsame.symm
  · cases henters
    exact absurd rfl ha

/-- The owner comes to `handshake` by an `accept` that succeeds. -/
theorem Step.handshaking_back {s t : State} {a : Action} (h : Step s a t) (ha : a ≠ .accept true)
    {c : Nat} (ht : t.owner = .handshaking c) : s.owner = .handshaking c := by
  have henters := h.enters (by rw [ht]; rfl)
  rw [ht] at henters
  rcases henters with hsame | henters
  · exact hsame.symm
  · cases henters
    exact absurd rfl ha

/-- A stopped server does not come to `accept`. -/
theorem Step.not_accepting_of_stopping {s t : State} {a : Action} (h : Step s a t)
    (hstop : s.stopping = true) (hs : s.owner = .looping) : t.owner ≠ .accepting := by
  intro ht
  have henters := h.enters (by rw [ht]; rfl)
  rw [ht, hs] at henters
  rcases henters with hsame | henters
  · cases hsame
  · cases henters with
    | accepting _ _ hgoing =>
        rw [hstop] at hgoing
        cases hgoing

/-- A connection is admitted by a handshake that succeeds. -/
theorem Step.admitted_back {s t : State} {a : Action} (hacc : Accounts s) (h : Step s a t)
    (ha : a ≠ .handshake .succeeded) {c : Nat} (ht : t.Admitted c) : s.Admitted c := by
  cases ht with
  | inr howner => exact .inr (h.submitting_back ha howner)
  | inl hpooled =>
      rcases h.connections_eq hacc with hsame | ⟨-, happend⟩ | ⟨c', p, q, hmoves, hc', hset⟩
      · exact .inl (hsame ▸ hpooled)
      · rw [happend, List.getElem?_append] at hpooled
        split at hpooled
        · exact .inl hpooled
        · cases List.mem_singleton.1 (List.mem_of_getElem? hpooled)
      · rw [hset] at hpooled
        by_cases heq : c' = c
        · subst heq
          rw [List.getElem?_set_self (List.getElem?_eq_some_iff.1 hc').1] at hpooled
          cases hmoves with
          | submitted howner => exact .inr howner
          | _ => cases hpooled
        · rw [List.getElem?_set_ne heq] at hpooled
          exact .inl hpooled

/-- `run` has not ended, and no exception has left `handle_connection`. -/
def State.Early (s : State) (c : Nat) : Prop :=
  s.connections[c]? = some .handshaking ∨ s.connections[c]? = some .pooled

/-- A connection is early from the beginning, or not at all. -/
theorem Step.early_back {s t : State} {a : Action} (hacc : Accounts s) (h : Step s a t) {c : Nat}
    (hc : c < s.connections.length) (ht : t.Early c) : s.Early c := by
  rcases h.connections_eq hacc with hsame | ⟨-, happend⟩ | ⟨c', p, q, hmoves, hc', hset⟩
  · simpa [State.Early, hsame] using ht
  · simpa [State.Early, happend, List.getElem?_append_left hc] using ht
  · by_cases heq : c' = c
    · subst heq
      rw [State.Early, hset, List.getElem?_set_self hc] at ht
      cases hmoves with
      | submitted => exact .inl hc'
      | _ => rcases ht with ht | ht <;> cases ht
    · simpa [State.Early, hset, List.getElem?_set_ne heq] using ht

/-- A connection in the pool stays there until `run` ends. -/
theorem Step.pooled_mono {s t : State} {a : Action} (hacc : Accounts s) (h : Step s a t)
    (ha : ∀ w result, a ≠ .endRun w result) {c : Nat} (hs : s.connections[c]? = some .pooled) :
    t.connections[c]? = some .pooled := by
  rcases h.connections_eq hacc with hsame | ⟨-, happend⟩ | ⟨c', p, q, hmoves, hc', hset⟩
  · exact hsame ▸ hs
  · rw [happend, List.getElem?_append_left (List.getElem?_eq_some_iff.1 hs).1]
    exact hs
  · have hp : p ≠ .pooled := by
      cases hmoves with
      | returned | runThrew => exact absurd rfl (ha _ _)
      | _ => nofun
    rw [hset]
    exact getElem?_set_slot_of_ne hc' hs hp

/-- The end of `run` takes the connection out of the pool, and no other. -/
theorem Step.endRun {s t : State} {w c : Nat} {result : RunEnd} (h : Step s (.endRun w result) t)
    (hw : s.serving w = some c) :
    ∃ q, q ≠ .handshaking ∧ q ≠ .pooled ∧ t.connections = s.connections.set c q := by
  cases h with
  | runReturned hw' _ =>
      cases hw.symm.trans hw'
      exact ⟨.closing, nofun, nofun, rfl⟩
  | runThrew hw' _ _ _ =>
      cases hw.symm.trans hw'
      exact ⟨.abandoned, nofun, nofun, rfl⟩

theorem Step.length_le {s t : State} {a : Action} (hacc : Accounts s) (h : Step s a t) :
    s.connections.length ≤ t.connections.length := by
  rcases h.connections_eq hacc with hsame | ⟨-, happend⟩ | ⟨c, p, q, -, -, hset⟩
  · exact Nat.le_of_eq (by rw [hsame])
  · rw [happend, List.length_append]
    exact Nat.le_add_right _ _
  · exact Nat.le_of_eq (by rw [hset, List.length_set])

theorem Step.length_eq {s t : State} {a : Action} (hacc : Accounts s) (h : Step s a t)
    (ha : a ≠ .accept true) : t.connections.length = s.connections.length := by
  rcases h.connections_eq hacc with hsame | ⟨haccept, -⟩ | ⟨c, p, q, -, -, hset⟩
  · rw [hsame]
  · exact absurd haccept ha
  · rw [hset, List.length_set]

/-! ## References -/

/-- The connection in the frame of `handle_connection`.  The one whose task has
just been submitted is the last that was accepted. -/
def State.frame (s : State) : Option Nat :=
  match s.owner with
  | .handshaking c | .refusing c | .submitting c => some c
  | .notifying => some (s.connections.length - 1)
  | _ => none

/-- Some `shared_ptr` to the connection is left. -/
def State.references (s : State) (c : Nat) : Bool := s.frame == some c || s.jobs.contains c

theorem State.references_iff {s : State} {c : Nat} :
    s.references c = true ↔ s.frame = some c ∨ c ∈ s.jobs := by
  simp [references]

/-- The frame holds the last connection that was accepted. -/
def Newest (s : State) : Prop := ∀ c, s.frame = some c → c + 1 = s.connections.length

/-- A step of the pool brings no task into it but the one that is submitted. -/
theorem mem_tasks_of_step {p q : ThreadPool.State Nat} {b : ThreadPool.Action Nat}
    (h : p.step b = some q) {task : ThreadPool.Task Nat} (htask : task ∈ q.held ++ q.tasks) :
    task ∈ p.held ++ p.tasks ∨ ∃ c, b = .submit c task.callable := by
  rw [List.mem_append] at htask ⊢
  cases (ThreadPool.Step.of_step h).transfer with
  | @queued c f _ _ htasks _ _ hheld _ =>
      rw [hheld, htasks, List.mem_append, List.mem_singleton] at htask
      rcases htask with hmem | hmem | rfl
      · exact .inl (.inl hmem)
      · exact .inl (.inr hmem)
      · exact .inr ⟨c, rfl⟩
  | @taken _ taken _ htasks _ _ hheld _ =>
      rw [htasks, List.mem_cons]
      rw [hheld.mem_iff, List.mem_cons] at htask
      rcases htask with (rfl | hmem) | hmem
      · exact .inl (.inr (.inl rfl))
      · exact .inl (.inl hmem)
      · exact .inl (.inr (.inr hmem))
  | ended _ htasks _ _ hheld _ =>
      rw [htasks] at htask
      exact .inl (htask.imp_left fun hmem => hheld.mem_iff.1 (List.mem_cons_of_mem _ hmem))
  | none _ _ htasks _ _ hheld _ =>
      rw [htasks, hheld.mem_iff] at htask
      exact .inl htask

/-- A connection gets its task from `submit`. -/
theorem Step.mem_jobs {s t : State} {a : Action} (h : Step s a t) {c : Nat} (hc : c ∈ t.jobs) :
    c ∈ s.jobs ∨ s.owner = .submitting c := by
  have hstep : ∀ {b : ThreadPool.Action Nat}, s.pool.step b = some t.pool →
      (∀ client c, b = .submit client c → s.owner = .submitting c) →
      c ∈ s.jobs ∨ s.owner = .submitting c := by
    intro b hpool hsubmit
    obtain ⟨task, htask, rfl⟩ := List.mem_map.1 hc
    cases mem_tasks_of_step hpool htask with
    | inl hmem => exact .inl (List.mem_map_of_mem hmem)
    | inr hnew =>
        obtain ⟨client, rfl⟩ := hnew
        exact .inr (hsubmit _ _ rfl)
  have hexecute : ∀ {x : Stmt} {u : State}, s.execute x = some u → u.pool = t.pool →
      c ∈ s.jobs ∨ s.owner = .submitting c := by
    intro x u hexec hu
    have hsame := State.execute_tasks hexec
    rw [hu] at hsame
    refine .inl ?_
    obtain ⟨task, htask, rfl⟩ := List.mem_map.1 hc
    refine List.mem_map_of_mem (List.mem_append.2 ?_)
    rw [List.mem_append, hsame.1, hsame.2.mem_iff] at htask
    exact htask
  cases h with
  | submitted hs _ hpool | submitThrew hs _ hpool =>
      exact hstep hpool fun _ _ heq => by cases heq; exact hs
  | notified _ hpool | woken hpool | locked hpool | runThrew _ _ _ hpool
  | taskReturned _ _ hpool => exact hstep hpool nofun
  | poolDestroyed _ ha hpool =>
      refine hstep hpool ?_
      rintro client c rfl
      unfold State.poolDestructor at ha
      split at ha <;> cases ha
  | @closingStmt x rest u _ hexec => exact hexecute (u := u) hexec rfl
  | @tearingDownStmt x rest u _ hexec => exact hexecute (u := u) hexec rfl
  | @stopStmt i x rest u _ hexec => exact hexecute (u := u) hexec rfl
  | _ => exact .inl hc

/-- What the frame holds after a step it held before, or it is new. -/
theorem Step.frame_back {s t : State} {a : Action} (hnew : Newest s) (h : Step s a t) {c : Nat}
    (ht : t.frame = some c) :
    (s.frame = some c ∧ t.connections.length = s.connections.length) ∨
      (c = s.connections.length ∧ t.connections.length = c + 1) := by
  -- a thread other than the owner
  have hother : t.owner = s.owner → t.connections.length = s.connections.length →
      (s.frame = some c ∧ t.connections.length = s.connections.length) ∨
        (c = s.connections.length ∧ t.connections.length = c + 1) := by
    intro howner hlength
    rw [State.frame, howner, hlength] at ht
    exact .inl ⟨ht, hlength⟩
  cases h with
  | accepted _ _ =>
      cases ht
      exact .inr ⟨rfl, by simp⟩
  | handshakeSucceeded hs =>
      cases ht
      exact .inl ⟨by rw [State.frame, hs], rfl⟩
  | handshakeFailed hs =>
      cases ht
      exact .inl ⟨by rw [State.frame, hs], by simp⟩
  | @submitted c' pool hs _ _ =>
      have hframe : s.frame = some c' := by rw [State.frame, hs]
      have hlast := hnew c' hframe
      simp only [State.frame, State.setPhase_connections, List.length_set, Option.some.injEq] at ht
      obtain rfl : c' = c := by omega
      exact .inl ⟨hframe, by simp⟩
  | stopStmt _ hexec =>
      obtain ⟨howner, -, hconn, -⟩ := State.execute_frame hexec
      exact hother howner (by rw [hconn])
  | stopCalled | woken | locked | routed | taskReturned => exact hother rfl rfl
  | runReturned | runThrew | decremented => exact hother rfl (by simp)
  | caught hs => cases hstop : s.stopping <;> simp [State.frame, hstop] at ht
  | @poolDestroyed rest b pool hs _ _ =>
      by_cases hleave : b = .leave 0 <;> simp [State.frame, hs, hleave] at ht
  | _ => cases ht

theorem Newest.of_reachable {n : Nat} {s : State} (h : (machine n).Reachable s) : Newest s := by
  refine h.invariant (I := Newest) (fun c hc => by cases hc) fun s a t hs hst c hc => ?_
  rcases (Step.of_step hst).frame_back hs hc with ⟨hframe, hlength⟩ | ⟨-, hlength⟩
  · exact (hs c hframe).trans hlength.symm
  · exact hlength.symm

/-- **What nobody keeps any more, nobody gets hold of again.** -/
theorem Step.references_mono {s t : State} {a : Action} (hnew : Newest s) (h : Step s a t) {c : Nat}
    (hc : c < s.connections.length) (ht : t.references c = true) : s.references c = true := by
  rw [State.references_iff] at ht ⊢
  cases ht with
  | inl hframe =>
      rcases h.frame_back hnew hframe with ⟨hbefore, -⟩ | ⟨rfl, -⟩
      · exact .inl hbefore
      · exact absurd hc (Nat.lt_irrefl _)
  | inr hjob =>
      cases h.mem_jobs hjob with
      | inl hbefore => exact .inr hbefore
      | inr howner => exact .inl (by rw [State.frame, howner])

end HttpsServer.Server
