import HttpsServer.Server.Jobs

/-!
# HttpsServer.Server.Placement

Where the threads of a server and its connections are.

The position of the owner says where it stands as a client of the pool: in
`submit`, in `shutdown`, in `~ThreadPool` or outside.  A connection that has not
ended is in the hands of the owner or in the pool.  `Placed` states both; from
it follows which of their next steps the threads can take.
-/

namespace HttpsServer.ThreadPool

/-- A step of a worker. -/
def Action.ofWorker {φ : Type} : Action φ → Bool
  | wake _ | lock _ | finish _ _ => true
  | submit _ _ | notifyOne _ _ | shutdown _ _ | notifyAll _ | join _ | leave _ => false

/-- A worker leaves the clients where they are. -/
theorem clients_of_worker {φ : Type} {p q : State φ} {b : Action φ} (h : p.step b = some q)
    (hb : b.ofWorker = true) : q.clients = p.clients := by
  cases Step.of_step h with
  | woken | slept | exited | took | finished => rfl
  | _ => cases hb

end HttpsServer.ThreadPool

namespace HttpsServer.Server

open ThreadPool (Client)

/-! ## The owner as a client of the pool -/

/-- A client that is inside `~ThreadPool`. -/
def InPoolDestructor : Client → Prop
  | .notifyAll call => call = .destructor
  | .joining _ | .blocked _ | .joined => True
  | .idle | .notifyOne => False

/-- Before the statement `notifyPool`, the critical section of `shutdown` has
been executed. -/
def pendingClient (rest : List Stmt) : Client :=
  if rest = [.notifyPool] then .notifyAll .shutdown else .idle

/-- Where the owner stands in the pool. -/
def Owner.Uses : Owner → Client → Prop
  | notifying, client => client = .notifyOne
  | closing rest, client | tearingDown rest, client =>
      rest <:+ shutdown ∧ client = pendingClient rest
  | destroying rest, client =>
      rest <:+ destructionOrder ∧
        (client = .idle ∨ rest.head? = some .threadPool ∧ InPoolDestructor client)
  | outside, client | opening, client | looping, client | accepting, client
  | handshaking _, client | refusing _, client | submitting _, client | caught, client
  | destroyed, client => client = .idle

/-- The suffixes of `shutdown` that begin with a statement. -/
theorem cons_suffix_shutdown {x : Stmt} {rest : List Stmt} (h : x :: rest <:+ shutdown) :
    x = .setStopping ∧ rest = [.clearRunning, .stopListener, .shutdownPool, .notifyPool] ∨
      x = .clearRunning ∧ rest = [.stopListener, .shutdownPool, .notifyPool] ∨
      x = .stopListener ∧ rest = [.shutdownPool, .notifyPool] ∨
      x = .shutdownPool ∧ rest = [.notifyPool] ∨ x = .notifyPool ∧ rest = [] := by
  simpa [shutdown, List.suffix_cons_iff] using h

/-- A statement of `shutdown` takes the owner from one position in the pool to
the next. -/
theorem State.execute_client {s t : State} {x : Stmt} {rest : List Stmt}
    (hsuffix : x :: rest <:+ shutdown) (hclients : s.pool.clients = [pendingClient (x :: rest)])
    (h : s.execute x = some t) : t.pool.clients = [pendingClient rest] := by
  rcases cons_suffix_shutdown hsuffix with
    ⟨rfl, rfl⟩ | ⟨rfl, rfl⟩ | ⟨rfl, rfl⟩ | ⟨rfl, rfl⟩ | ⟨rfl, rfl⟩
  · cases h
    exact hclients
  · cases h
    exact hclients
  · cases h
    exact hclients
  · obtain ⟨pool, hpool, rfl⟩ := State.poolStep_eq_some.1 h
    cases ThreadPool.Step.of_step hpool with
    | closed hc => simp [ThreadPool.State.shutdown, hclients, pendingClient]
  · obtain ⟨pool, hpool, rfl⟩ := State.poolStep_eq_some.1 h
    cases ThreadPool.Step.of_step hpool with
    | @notifiedAll _ call hc =>
        have hcall : call = .shutdown := by simpa [hclients, pendingClient] using hc.symm
        simp [ThreadPool.State.notifyAll, hclients, hcall, pendingClient,
          ThreadPool.ShutdownCall.joins]

/-- A step of `~ThreadPool` takes the owner further into it, and the last one out
of it. -/
theorem State.poolDestructor_client {s : State} {client : Client} {a : ThreadPool.Action Nat}
    {pool : ThreadPool.State Nat} (hclients : s.pool.clients = [client])
    (huses : client = .idle ∨ InPoolDestructor client) (ha : s.poolDestructor = some a)
    (h : s.pool.step a = some pool) :
    ∃ client', pool.clients = [client'] ∧
      if a = .leave 0 then client' = .idle else InPoolDestructor client' := by
  have hstep := ThreadPool.Step.of_step h
  cases client with
  | idle =>
      obtain rfl : ThreadPool.Action.shutdown 0 .destructor = a := by
        simpa [poolDestructor, hclients] using ha
      cases hstep with
      | closed hc =>
          exact ⟨.notifyAll .destructor, by simp [ThreadPool.State.shutdown, hclients], rfl⟩
  | notifyOne => cases huses <;> contradiction
  | notifyAll call =>
      obtain rfl : call = .destructor := huses.resolve_left (by simp)
      obtain rfl : ThreadPool.Action.notifyAll 0 = a := by simpa [poolDestructor, hclients] using ha
      cases hstep with
      | @notifiedAll _ call hc =>
          obtain rfl : ThreadPool.ShutdownCall.destructor = call := by simpa [hclients] using hc
          exact ⟨.joining 0, by simp [ThreadPool.State.notifyAll, hclients,
            ThreadPool.ShutdownCall.joins], trivial⟩
  | joining i =>
      obtain rfl : ThreadPool.Action.join 0 = a := by simpa [poolDestructor, hclients] using ha
      cases hstep with
      | loopEnded hc _ => exact ⟨.joined, by simp [hclients], trivial⟩
      | @skipped _ j hc _ => exact ⟨.joining (j + 1), by simp [hclients], trivial⟩
      | @joinCalled _ j hc _ => exact ⟨.blocked j, by simp [hclients], trivial⟩
      | joinReturned hc _ => simp [hclients] at hc
  | blocked i =>
      obtain rfl : ThreadPool.Action.join 0 = a := by simpa [poolDestructor, hclients] using ha
      cases hstep with
      | loopEnded hc _ | skipped hc _ | joinCalled hc _ => simp [hclients] at hc
      | @joinReturned _ j hc _ => exact ⟨.joining (j + 1), by simp [hclients], trivial⟩
  | joined =>
      obtain rfl : ThreadPool.Action.leave 0 = a := by simpa [poolDestructor, hclients] using ha
      cases hstep with
      | left hc => exact ⟨.idle, by simp [hclients], rfl⟩

/-! ## The invariant -/

/-- The owner's place in the pool, the calls of `stop`, and the connections in
the owner's hands. -/
structure Placed (s : State) : Prop where
  client : ∃ client, s.pool.clients = [client] ∧ s.owner.Uses client
  stoppers : ∀ rest ∈ s.stoppers, rest <:+ stop
  owned : ∀ c p, s.connections[c]? = some p →
    p.over = true ∨ p = .pooled ∨ p = .closing ∨ s.owner.position = some (c, p)

theorem Placed.initial (n : Nat) : Placed (.initial n) where
  client := ⟨.idle, rfl, rfl⟩
  stoppers := nofun
  owned := nofun

/-- A call of `stop` leaves the pool alone. -/
theorem State.execute_stop {s t : State} {x : Stmt} {rest : List Stmt}
    (hsuffix : x :: rest <:+ stop) (h : s.execute x = some t) : t.pool = s.pool := by
  have hx : x = .setStopping ∨ x = .clearRunning ∨ x = .stopListener := by
    simpa [stop] using hsuffix.subset List.mem_cons_self
  rcases hx with rfl | rfl | rfl <;> (cases h; rfl)

/-- The connection in the owner's hands reaches a phase, and the owner goes
on. -/
theorem Placed.owned_set {s : State} (h : Placed s) {c : Nat} {p q : Phase}
    (hpos : s.owner.position = some (c, p)) {owner : Owner}
    (hq : q.over = true ∨ q = .pooled ∨ q = .closing ∨ owner.position = some (c, q)) :
    ∀ c' p', (s.connections.set c q)[c']? = some p' →
      p'.over = true ∨ p' = .pooled ∨ p' = .closing ∨ owner.position = some (c', p') := by
  intro c' p' hc'
  by_cases heq : c = c'
  · subst heq
    obtain rfl : p' = q := by
      cases getElem?_set_slot hc' with
      | inl hnew => exact hnew
      | inr hold =>
          have hlt : c < s.connections.length := (List.getElem?_eq_some_iff.1 hold).1
          rw [List.getElem?_set_self hlt] at hc'
          exact (Option.some.inj hc').symm
    exact hq
  · rw [List.getElem?_set_ne heq] at hc'
    rcases h.owned c' p' hc' with hover | hpooled | hclosing | hother
    · exact .inl hover
    · exact .inr (.inl hpooled)
    · exact .inr (.inr (.inl hclosing))
    · exact absurd (congrArg Prod.fst (Option.some.inj (hpos.symm.trans hother))) heq

/-- A connection in the pool reaches a phase. -/
theorem Placed.owned_pool {s : State} (h : Placed s) {c : Nat} {q : Phase}
    (hq : q.over = true ∨ q = .pooled ∨ q = .closing) :
    ∀ c' p', (s.connections.set c q)[c']? = some p' →
      p'.over = true ∨ p' = .pooled ∨ p' = .closing ∨ s.owner.position = some (c', p') := by
  intro c' p' hc'
  cases getElem?_set_slot hc' with
  | inl hnew =>
      subst hnew
      rcases hq with hover | hpooled | hclosing
      · exact .inl hover
      · exact .inr (.inl hpooled)
      · exact .inr (.inr (.inl hclosing))
  | inr hold => exact h.owned c' p' hold

/-- The owner goes on with no connection in its hands, before and after. -/
theorem Placed.owned_move {s : State} (h : Placed s) (hpos : s.owner.position = none)
    (owner : Owner) : ∀ c p, s.connections[c]? = some p →
      p.over = true ∨ p = .pooled ∨ p = .closing ∨ owner.position = some (c, p) := by
  intro c p hc
  rcases h.owned c p hc with hover | hpooled | hclosing | hown
  · exact .inl hover
  · exact .inr (.inl hpooled)
  · exact .inr (.inr (.inl hclosing))
  · rw [hpos] at hown
    cases hown

/-! ## What a step keeps -/

/-- The parts of the server that steps belong to. -/
inductive Part where
  /-- `run` and `handle_connection` -/
  | serving
  /-- The statements of `stop` and `shutdown`. -/
  | stopping
  /-- `~Server` -/
  | teardown
  /-- The workers of the pool. -/
  | working

def Action.part : Action → Part
  | run | openListener _ | loopTest | accept _ | handshake _ | refuse | submit | notifyOne _
  | catchAll => .serving
  | shutdownStmt | callStop | stopStmt _ => .stopping
  | destroy | destroyMember => .teardown
  | wake _ | lock _ | route _ | endRun _ _ | decrement _ | taskReturns _ => .working

section Step

variable {s t : State} {a : Action}

/-- The owner takes a step outside the pool, with no connection in its hands. -/
theorem Placed.move (h : Placed s) (hpos : s.owner.position = none) {owner : Owner}
    (hnext : ∀ client, s.owner.Uses client → owner.Uses client) (listener : TcpListener)
    (running : Bool) :
    Placed { s with owner := owner, listener := listener, running := running } := by
  obtain ⟨client, hclients, huses⟩ := h.client
  exact ⟨⟨client, hclients, hnext client huses⟩, h.stoppers, h.owned_move hpos _⟩

/-- `run` and `handle_connection` -/
theorem Placed.step_serving (h : Placed s) (hst : Step s a t) (ha : a.part = .serving) :
    Placed t := by
  obtain ⟨client, hclients, huses⟩ := h.client
  cases hst with
  | run hs | opened hs | openThrew hs | loopContinued hs _ _ | acceptThrew hs =>
      exact h.move (by rw [hs]; rfl) (by rw [hs]; exact fun _ => id) _ _
  | loopLeft hs _ =>
      refine h.move (by rw [hs]; rfl) (fun client hidle => ?_) _ _
      rw [hs] at hidle
      exact ⟨List.suffix_refl _, hidle⟩
  | accepted hs _ =>
      rw [hs] at huses
      refine ⟨⟨client, hclients, huses⟩, h.stoppers, fun c p hc => ?_⟩
      cases Nat.lt_or_ge c s.connections.length with
      | inl hlt =>
          rw [List.getElem?_append_left hlt] at hc
          exact h.owned_move (by rw [hs]; rfl) _ c p hc
      | inr hge =>
          rw [List.getElem?_append_right hge, List.getElem?_singleton] at hc
          split at hc
          · next hzero =>
              cases hc
              have heq : c = s.connections.length := by omega
              exact .inr (.inr (.inr (by rw [heq]; rfl)))
          · cases hc
  | handshakeSucceeded hs =>
      rw [hs] at huses
      refine ⟨⟨client, hclients, huses⟩, h.stoppers, fun c p hc => ?_⟩
      simpa [hs, Owner.position] using h.owned c p hc
  | handshakeFailed hs =>
      rw [hs] at huses
      exact ⟨⟨client, hclients, huses⟩, h.stoppers,
        h.owned_set (by rw [hs]; rfl) (.inr (.inr (.inr rfl)))⟩
  | handshakeThrew hs | refused hs =>
      rw [hs] at huses
      exact ⟨⟨client, hclients, huses⟩, h.stoppers, h.owned_set (by rw [hs]; rfl) (.inl rfl)⟩
  | submitted hs haccepting hpool =>
      refine ⟨⟨.notifyOne, ?_, rfl⟩, h.stoppers,
        h.owned_set (by rw [hs]; rfl) (.inr (.inl rfl))⟩
      cases ThreadPool.Step.of_step hpool with
      | accepted _ _ => simp [hclients]
      | rejected _ hrejecting => simp [haccepting] at hrejecting
  | submitThrew hs hrejecting hpool =>
      rw [hs] at huses
      refine ⟨⟨client, ?_, huses⟩, h.stoppers, h.owned_set (by rw [hs]; rfl) (.inl rfl)⟩
      cases ThreadPool.Step.of_step hpool with
      | accepted _ haccepting => simp [hrejecting] at haccepting
      | rejected _ _ => exact hclients
  | notified hs hpool =>
      refine ⟨⟨.idle, ?_, rfl⟩, h.stoppers, h.owned_move (by rw [hs]; rfl) _⟩
      cases ThreadPool.Step.of_step hpool <;> simp [hclients]
  | caught hs =>
      refine h.move (by rw [hs]; rfl) (fun client hidle => ?_) _ _
      rw [hs] at hidle
      split
      · exact ⟨List.suffix_refl _, hidle⟩
      · exact hidle
  | _ => cases ha

/-- The owner executes a statement of `shutdown`. -/
theorem Placed.execute (h : Placed s) {x : Stmt} {rest : List Stmt} {u : State}
    (hs : ∀ client, s.owner.Uses client →
      x :: rest <:+ shutdown ∧ client = pendingClient (x :: rest))
    (hpos : s.owner.position = none) (hexec : s.execute x = some u) {owner : Owner}
    (hnext : rest <:+ shutdown → owner.Uses (pendingClient rest)) :
    Placed { u with owner := owner } := by
  obtain ⟨client, hclients, huses⟩ := h.client
  obtain ⟨-, hstoppers, hconn, -⟩ := State.execute_frame hexec
  obtain ⟨hsuffix, rfl⟩ := hs client huses
  have hpool := State.execute_client hsuffix hclients hexec
  refine ⟨⟨_, hpool, hnext ((List.suffix_cons x rest).trans hsuffix)⟩, hstoppers ▸ h.stoppers, ?_⟩
  rw [hconn]
  exact h.owned_move hpos _

/-- The statements of `stop` and `shutdown`. -/
theorem Placed.step_stopping (h : Placed s) (hst : Step s a t) (ha : a.part = .stopping) :
    Placed t := by
  obtain ⟨client, hclients, huses⟩ := h.client
  cases hst with
  | closingStmt hs hexec | tearingDownStmt hs hexec =>
      exact h.execute (by rw [hs]; exact fun _ => id) (by rw [hs]; rfl) hexec
        fun hrest => ⟨hrest, rfl⟩
  | closed hs =>
      refine h.move (by rw [hs]; rfl) ?_ _ _
      rw [hs]
      exact fun _ hidle => hidle.2
  | tornDown hs =>
      refine h.move (by rw [hs]; rfl) ?_ _ _
      rw [hs]
      exact fun _ hidle => ⟨List.suffix_refl _, .inl hidle.2⟩
  | stopCalled _ =>
      refine ⟨⟨client, hclients, huses⟩, fun rest hrest => ?_, h.owned⟩
      cases List.mem_append.1 hrest with
      | inl hbefore => exact h.stoppers rest hbefore
      | inr hnew => exact List.mem_singleton.1 hnew ▸ List.suffix_refl stop
  | @stopStmt i x rest u hi hexec =>
      obtain ⟨howner, hstoppers, hconn, -⟩ := State.execute_frame hexec
      have hsuffix := h.stoppers _ (List.mem_of_getElem? hi)
      refine ⟨⟨client, ?_, howner ▸ huses⟩, fun rest' hrest' => ?_, ?_⟩
      · rw [State.execute_stop hsuffix hexec]
        exact hclients
      · rw [hstoppers] at hrest'
        cases List.mem_or_eq_of_mem_set hrest' with
        | inl hbefore => exact h.stoppers rest' hbefore
        | inr heq => exact heq ▸ (List.suffix_cons x rest).trans hsuffix
      · rw [howner, hconn]
        exact h.owned
  | _ => cases ha

/-- `~Server` and, inside it, `~ThreadPool`. -/
theorem Placed.step_teardown (h : Placed s) (hst : Step s a t) (ha : a.part = .teardown) :
    Placed t := by
  obtain ⟨client, hclients, huses⟩ := h.client
  cases hst with
  | destroyCalled hs _ =>
      refine h.move (by rw [hs]; rfl) ?_ _ _
      rw [hs]
      exact fun _ hidle => ⟨List.suffix_refl _, hidle⟩
  | @memberDestroyed m rest hs hm =>
      refine h.move (by rw [hs]; rfl) ?_ _ _
      rw [hs]
      rintro client ⟨hsuffix, hidle⟩
      refine ⟨(List.suffix_cons m rest).trans hsuffix, .inl (hidle.resolve_right ?_)⟩
      exact fun hhead => hm (Option.some.inj hhead.1)
  | @poolDestroyed rest b pool hs hb hpool =>
      rw [hs] at huses
      obtain ⟨hsuffix, hstage⟩ := huses
      obtain ⟨client', hclients', hnext⟩ :=
        State.poolDestructor_client hclients (hstage.imp id And.right) hb hpool
      refine ⟨⟨client', hclients', ?_⟩, h.stoppers, h.owned_move (by rw [hs]; rfl) _⟩
      dsimp only
      split at hnext
      · next hleave =>
          rw [if_pos hleave]
          exact ⟨(List.suffix_cons _ rest).trans hsuffix, .inl hnext⟩
      · next hleave =>
          rw [if_neg hleave, hs]
          exact ⟨hsuffix, .inr ⟨rfl, hnext⟩⟩
  | destroyed hs =>
      refine h.move (by rw [hs]; rfl) ?_ _ _
      rw [hs]
      rintro client ⟨-, hidle⟩
      exact hidle.resolve_right fun hhead => by simp at hhead
  | _ => cases ha

/-- The workers. -/
theorem Placed.step_working (h : Placed s) (hst : Step s a t) (ha : a.part = .working) :
    Placed t := by
  obtain ⟨client, hclients, huses⟩ := h.client
  have hworker : ∀ {b : ThreadPool.Action Nat} {pool : ThreadPool.State Nat},
      s.pool.step b = some pool → b.ofWorker = true → pool.clients = [client] :=
    fun hpool hb => (ThreadPool.clients_of_worker hpool hb).trans hclients
  cases hst with
  | woken hpool | locked hpool | taskReturned _ _ hpool =>
      exact ⟨⟨client, hworker hpool rfl, huses⟩, h.stoppers, h.owned⟩
  | routed _ _ => exact h
  | runReturned _ _ =>
      exact ⟨⟨client, hclients, huses⟩, h.stoppers, h.owned_pool (.inr (.inr rfl))⟩
  | runThrew _ _ _ hpool =>
      exact ⟨⟨client, hworker hpool rfl, huses⟩, h.stoppers, h.owned_pool (.inl rfl)⟩
  | decremented _ _ =>
      exact ⟨⟨client, hclients, huses⟩, h.stoppers, h.owned_pool (.inl rfl)⟩
  | _ => cases ha

/-- A step keeps `Placed`. -/
theorem Placed.step (h : Placed s) (hst : Step s a t) : Placed t := by
  cases ha : a.part with
  | serving => exact h.step_serving hst ha
  | stopping => exact h.step_stopping hst ha
  | teardown => exact h.step_teardown hst ha
  | working => exact h.step_working hst ha

end Step

/-- Every reachable state has `Placed`. -/
theorem Placed.of_reachable {n : Nat} {s : State} (h : (machine n).Reachable s) : Placed s :=
  h.invariant (.initial n) fun _ _ _ hs hst => hs.step (.of_step hst)

/-! ## Members -/

/-- The member whose destructor a step begins. -/
def State.destroys (s : State) : Action → Option Member
  | .destroyMember =>
    match s.owner with
    | .destroying (m :: _) => some m
    | _ => none
  | _ => none

/-- Only the destructor of a member takes it away. -/
theorem Step.alive_eq {s t : State} {a : Action} (hst : Step s a t) (h : Placed s) {m : Member}
    (hm : m ≠ .threadPool) : t.alive m = (s.alive m && decide (s.destroys a ≠ some m)) := by
  cases hst with
  | tornDown hs =>
      rw [State.alive, State.alive, hs]
      cases m <;> simp [State.destroys, destructionOrder, declared]
  | @memberDestroyed m' rest hs _ =>
      obtain ⟨client, -, huses⟩ := h.client
      rw [hs] at huses
      have hnodup : (m' :: rest).Nodup := huses.1.sublist.nodup (by decide)
      by_cases heq : m = m'
      · subst heq
        simpa [State.alive, State.destroys, hs] using (List.nodup_cons.1 hnodup).1
      · simp [State.alive, State.destroys, hs, heq, Ne.symm heq]
  | poolDestroyed hs _ _ =>
      split <;> simp [State.alive, State.destroys, hs, hm, Ne.symm hm]
  | stopStmt _ hexec => simp [State.alive, (State.execute_frame hexec).1, State.destroys]
  | caught hs => cases s.stopping <;> simp [State.alive, State.destroys, hs]
  | stopCalled | woken | locked | routed | runReturned | runThrew | decremented | taskReturned =>
      simp [State.alive, State.destroys, State.setPhase]
  | run hs | opened hs | openThrew hs | loopContinued hs | loopLeft hs | accepted hs
  | acceptThrew hs | handshakeSucceeded hs | handshakeFailed hs | handshakeThrew hs | refused hs
  | submitted hs | submitThrew hs | notified hs | closingStmt hs | closed hs | destroyCalled hs
  | tearingDownStmt hs | destroyed hs =>
      simp [State.alive, State.destroys, hs]

/-- A member is destroyed once. -/
theorem State.alive_of_destroys {s : State} {a : Action} {m : Member} (h : s.destroys a = some m) :
    s.alive m = true := by
  cases a with
  | destroyMember =>
      simp only [destroys] at h
      split at h
      · next hs =>
        cases h
        simp [alive, hs]
      · cases h
  | _ => cases h

end HttpsServer.Server
