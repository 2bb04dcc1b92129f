import HttpsServer.Server.Completion
import HttpsServer.Socket.Ownership
import HttpsServer.System.Service

/-!
# HttpsServer.System.Descriptors

The descriptors of a server's connections.

A `Connection` holds the descriptor it was constructed from until `close`, at the
end of `run` or in the destructor.  So what the descriptors see is a life of
each: nothing is called on one that has been closed, although the system may
hand its number out again while other connections are served.  And when a server
has come to rest, every descriptor it accepted has been closed, whatever
exceptions were thrown (`no_descriptor_leaks`).
-/

namespace HttpsServer.System

open scoped List
open Socket (Owned descriptor?)

variable {setup : Setup} {s t : State}

/-- The descriptor of a connection. -/
def Object.descriptor? (o : Object) : Option Int :=
  Socket.descriptor? (some o.session.connection.socket)

/-- The descriptors of all connections. -/
def State.held (s : State) : List Int := s.objects.filterMap Object.descriptor?

theorem Object.descriptor?_eq_some {o : Object} {fd : Int} :
    o.descriptor? = some fd ↔
      o.session.connection.socket = { handle := fd } ∧ fd ≠ Socket.invalidHandle := by
  rw [Object.descriptor?, Socket.Program.descriptor?_eq_some, Option.some.injEq]

theorem Object.descriptor?_of_valid {o : Object} (h : o.session.connection.socket.valid = true) :
    o.descriptor? = some o.session.connection.socket.handle := by
  simp [Object.descriptor?, Socket.descriptor?, h]

theorem Object.descriptor?_of_invalid {o : Object} (h : o.session.connection.socket.valid = false) :
    o.descriptor? = none := by
  simp [Object.descriptor?, Socket.descriptor?, h]

/-- A descriptor that no connection has is not among them. -/
theorem State.not_mem_held {fd : Int} (h : s.owns fd = false) : fd ∉ s.held := by
  intro hmem
  obtain ⟨o, ho, hfd⟩ := List.mem_filterMap.1 hmem
  have howns : s.owns fd = true := by
    rw [State.owns, List.any_eq_true]
    exact ⟨o, ho, beq_iff_eq.2 (Object.descriptor?_eq_some.1 hfd).1⟩
  rw [h] at howns
  cases howns

/-! ## What a step does to descriptors -/

/-- A member function is called on the socket of a connection. -/
theorem Owned.memberCalls {log : List Socket.Event} (h : Owned s.held log) {c : Nat} {o : Object}
    (hc : s.objects[c]? = some o) :
    Owned s.held (log ++ o.session.connection.socket.memberCalls) := by
  unfold Socket.memberCalls
  split
  · next hvalid =>
      refine h.used (List.mem_filterMap.2 ⟨o, List.mem_of_getElem? hc, ?_⟩)
      exact Object.descriptor?_of_valid hvalid
  · rw [List.append_nil]
    exact h

/-- A connection is closed. -/
theorem Owned.close {log : List Socket.Event} (h : Owned s.held log) {c : Nat} {o o' : Object}
    (hc : s.objects[c]? = some o) (ho' : o'.session.connection.socket.valid = false) :
    Owned ((s.objects.set c o').filterMap Object.descriptor?)
      (log ++ closeCalls o.session.connection) := by
  have hmoved := filterMap_set_slot Object.descriptor? o' hc
  rw [Object.descriptor?_of_invalid ho', Option.toList_none, List.nil_append] at hmoved
  rw [closeCalls, Socket.closeCalls]
  cases hvalid : o.session.connection.socket.valid with
  | true =>
      rw [Object.descriptor?_of_valid hvalid] at hmoved
      rw [if_pos rfl]
      exact (h.perm hmoved.symm).givenUp (.inl rfl)
  | false =>
      rw [Object.descriptor?_of_invalid hvalid] at hmoved
      rw [if_neg Bool.false_ne_true, List.append_nil]
      exact h.perm hmoved.symm

/-- A connection takes a step of its session. -/
theorem Owned.advance (h : Owned s.held s.descriptors) {c : Nat} {o : Object} {a : Session.Action}
    {session : Session.State} {v : Server.State} (hc : s.objects[c]? = some o)
    (hst : Session.Step o.session a session) :
    Owned (s.advance c o a session v).held (s.advance c o a session v).descriptors := by
  -- the socket is used, or left alone
  have hkeep : ∀ calls, session.connection.socket = o.session.connection.socket →
      calls = [] ∨ calls = o.session.connection.socket.memberCalls →
      Owned ((s.objects.set c { o with session := session }).filterMap Object.descriptor?)
        (s.descriptors ++ calls) := by
    intro calls hsocket hcalls
    have hsame : { o with session := session }.descriptor? = o.descriptor? := by
      rw [Object.descriptor?, hsocket, Object.descriptor?]
    rw [filterMap_set_of_eq Object.descriptor? _ hc hsame]
    rcases hcalls with rfl | rfl
    · rw [List.append_nil]
      exact h
    · exact Owned.memberCalls h hc
  cases hst with
  | @handshaken outcome hs =>
      obtain ⟨tls, complete, he⟩ := o.session.connection.handshake_eq outcome
      refine hkeep _ (by rw [he]) ?_
      rw [systemCalls]
      split
      · exact .inr rfl
      · exact .inl rfl
  | closed | returned => exact Owned.close h hc rfl
  | received | ended | sent => exact hkeep _ rfl (.inr rfl)
  | entered | continued | left | parsed | wanting | rejected | handled | threw =>
      exact hkeep _ rfl (.inl rfl)

theorem owned_step {a : Action} (h : Owned s.held s.descriptors) (hst : Step setup s a t) :
    Owned t.held t.descriptors := by
  cases hst with
  | server => exact h
  | @accepted fd _ hfd howns _ =>
      have hheld : s.objects.filterMap Object.descriptor? ++
          [{ session := { connection := setup.connection fd } : Object }].filterMap
            Object.descriptor? ~ fd :: s.held := by
        have hnew : ({ session := { connection := setup.connection fd } } : Object).descriptor? =
            some fd := Object.descriptor?_eq_some.2 ⟨rfl, hfd⟩
        rw [List.filterMap_cons_some hnew, List.filterMap_nil]
        exact List.perm_append_singleton fd _
      refine (h.acquired (State.not_mem_held howns)).perm (.trans hheld.symm ?_)
      rw [State.held, List.filterMap_append]
  | handshaken _ hc hsession _ => exact Owned.advance h hc (.of_step hsession)
  | ran _ _ hc _ hsession _ => exact Owned.advance h hc (.of_step hsession)
  | destroyed _ hc _ => exact Owned.close h hc rfl

/-! ## Destroyed connections -/

/-- `~Connection` closes the connection, and no descriptor is handed out. -/
structure Tidy (s : State) : Prop where
  destroyed : ∀ o ∈ s.objects, o.destroyed = true → o.descriptor? = none
  kept : ∀ e ∈ s.descriptors, ∀ fd, e ≠ .released fd

theorem mem_closeCalls {c : Connection} {e : Socket.Event} (he : e ∈ closeCalls c) (fd : Int) :
    e ≠ .released fd := by
  rintro rfl
  rw [closeCalls, Socket.closeCalls] at he
  split at he <;> simp at he

theorem mem_systemCalls {c : Connection} {a : Session.Action} {e : Socket.Event}
    (he : e ∈ systemCalls c a) (fd : Int) : e ≠ .released fd := by
  cases a with
  | close | leave => exact mem_closeCalls he fd
  | handshake | receive | send =>
      rintro rfl
      simp only [systemCalls, Socket.memberCalls] at he
      repeat' split at he
      all_goals simp at he
  | run | loopTest | parse | handle => exact absurd he List.not_mem_nil

theorem Tidy.step {a : Action} (h : Tidy s) (hreach : (machine setup).Reachable s)
    (hst : Step setup s a t) : Tidy t := by
  have hconsistent := Consistent.of_reachable hreach
  have hkept : ∀ {new : List Socket.Event}, (∀ e ∈ new, ∀ fd, e ≠ Socket.Event.released fd) →
      ∀ e ∈ s.descriptors ++ new, ∀ fd, e ≠ .released fd := by
    intro new hnew e he
    exact (List.mem_append.1 he).elim (h.kept e) (hnew e)
  -- a connection that takes a step has not been destroyed
  have hlive : ∀ {c : Nat} {o : Object} {session : Session.State}, s.objects[c]? = some o →
      s.server.references c = true → ∀ o' ∈ s.objects.set c { o with session := session },
        o'.destroyed = true → o'.descriptor? = none := by
    intro c o session hc hreferences o' ho' hdestroyed
    cases List.mem_or_eq_of_mem_set ho' with
    | inl hold => exact h.destroyed o' hold hdestroyed
    | inr heq =>
        subst heq
        rw [hconsistent.destroyed c o hc hdestroyed] at hreferences
        cases hreferences
  cases hst with
  | server => exact ⟨h.destroyed, h.kept⟩
  | accepted =>
      refine ⟨fun o ho hdestroyed => ?_, hkept fun e he fd => ?_⟩
      · cases List.mem_append.1 ho with
        | inl hold => exact h.destroyed o hold hdestroyed
        | inr hnew =>
            rw [List.mem_singleton.1 hnew] at hdestroyed
            cases hdestroyed
      · rw [List.mem_singleton.1 he]
        nofun
  | handshaken howner hc _ _ =>
      refine ⟨hlive hc ?_, hkept fun e he => mem_systemCalls he⟩
      exact Server.State.references_iff.2 (.inl (by rw [Server.State.frame, howner]))
  | ran hw _ hc _ _ _ =>
      refine ⟨hlive hc ?_, hkept fun e he => mem_systemCalls he⟩
      exact Server.State.references_iff.2 (.inr (Server.State.mem_jobs_of_serving hw))
  | destroyed _ hc _ =>
      refine ⟨fun o' ho' hdestroyed => ?_, hkept fun e he => mem_closeCalls he⟩
      cases List.mem_or_eq_of_mem_set ho' with
      | inl hold => exact h.destroyed o' hold hdestroyed
      | inr heq =>
          rw [heq]
          exact Object.descriptor?_of_invalid rfl

theorem Tidy.of_reachable (h : (machine setup).Reachable s) : Tidy s := by
  have hboth : (machine setup).Reachable s ∧ Tidy s := by
    refine h.invariant (I := fun s => (machine setup).Reachable s ∧ Tidy s)
      ⟨.init, fun _ ho => absurd ho List.not_mem_nil, fun _ he => absurd he List.not_mem_nil⟩ ?_
    exact fun s a t hs hst => ⟨hs.1.step hst, hs.2.step hs.1 (.of_step hst)⟩
  exact hboth.2

/-- Nobody keeps a connection of a server that has come to rest. -/
theorem unreferenced_of_rested (hrest : Server.Rested s.server) (c : Nat) :
    s.server.references c = false := by
  refine Bool.eq_false_iff.2 fun hreferences => ?_
  rcases Server.State.references_iff.1 hreferences with hframe | hjob
  · rcases hrest.owner with howner | howner <;> simp [Server.State.frame, howner] at hframe
  · obtain ⟨task, htask, -⟩ := List.mem_map.1 hjob
    rw [hrest.pool.tasks, List.append_nil] at htask
    obtain ⟨w, hw⟩ := ThreadPool.State.mem_held_iff.1 htask
    have hworker := hrest.pool.workers _ (List.mem_of_getElem? hw)
    split at hworker <;> cases hworker

theorem owned_of_reachable (h : (machine setup).Reachable s) : Owned s.held s.descriptors :=
  h.invariant (I := fun s => Owned s.held s.descriptors) .empty
    fun _ _ _ hs hst => owned_step hs (.of_step hst)

/-- Only a connection that is kept escapes its destruction. -/
theorem destroy_eq_none {c : Nat} : s.step setup (.destroy c) = none ↔
    s.server.references c = true ∨ ∀ o, s.objects[c]? = some o → o.destroyed = true := by
  cases hreferences : s.server.references c with
  | true => simp [State.step, State.destroy, hreferences]
  | false => simp [State.step, State.destroy, hreferences, Option.bind_eq_none_iff]

/-- Where every connection has been destroyed, every descriptor has been closed. -/
theorem closed_of_destroyed (h : (machine setup).Reachable s)
    (hdestroyed : ∀ o ∈ s.objects, o.destroyed = true) (fd : Int) :
    s.descriptors.count (.closed fd) = s.descriptors.count (.acquired fd) := by
  have htidy := Tidy.of_reachable h
  have hnone : s.held = [] :=
    List.filterMap_eq_nil_iff.2 fun o ho => htidy.destroyed o ho (hdestroyed o ho)
  have hbalance := Socket.life_balance ((owned_of_reachable h).lives fd)
  have hreleased : s.descriptors.count (.released fd) = 0 :=
    List.count_eq_zero.2 fun hmem => htidy.kept _ hmem fd rfl
  rw [hnone, hreleased] at hbalance
  simpa using hbalance

/-- **A server leaks no descriptor and uses none that is closed**: each
connection has one of its own, on which the system is called between its
opening and its only closing; and where the server has come to rest and the
connections are destroyed, all of them have been closed. -/
theorem no_descriptor_leaks (h : (machine setup).Reachable s) :
    s.held.Nodup ∧
      (∀ fd, (Socket.life fd).run false s.descriptors = some (decide (fd ∈ s.held))) ∧
      (Server.Rested s.server → (∀ c, s.step setup (.destroy c) = none) →
        ∀ fd, s.descriptors.count (.closed fd) = s.descriptors.count (.acquired fd)) := by
  have howned := owned_of_reachable h
  refine ⟨howned.nodup, howned.lives, fun hrest hdestroyed => closed_of_destroyed h fun o ho => ?_⟩
  obtain ⟨c, hc⟩ := List.mem_iff_getElem?.1 ho
  refine (destroy_eq_none.1 (hdestroyed c)).resolve_left ?_ o hc
  rw [unreferenced_of_rested hrest]
  exact Bool.false_ne_true

/-- The connection of `greetedRun` ends, and the server is stopped. -/
def closedRun : List Action :=
  greetedRun ++
    [.server (.decrement 0), .server (.taskReturns 0), .destroy 0, .server .callStop,
      .server (.stopStmt 0), .server (.stopStmt 0), .server (.stopStmt 0), .server .loopTest] ++
    List.replicate 6 (.server .shutdownStmt) ++ [.server (.lock 0)]

theorem exists_closed :
    ∃ s, (machine greeter).run (machine greeter).init closedRun = some s ∧
      Server.Rested s.server ∧ (∀ o ∈ s.objects, o.destroyed = true) ∧ s.held = [] ∧
      s.descriptors = [.acquired 3, .used 3, .used 3, .used 3, .closed 3] := by
  obtain ⟨s, hs, hend⟩ := Option.map_eq_some_iff.1 (show
    ((machine greeter).run (machine greeter).init closedRun).map (fun s => decide (
      (s.server.owner = .outside ∧ (∀ rest ∈ s.server.stoppers, rest = []) ∧
        (∀ p ∈ s.server.connections, p.over = true) ∧
        s.server.activeConnections = s.server.connections.countP (· == .abandoned)) ∧
      (s.server.pool.tasks = [] ∧ s.server.pool.finished = s.server.pool.accepted ∧
        (∀ client ∈ s.server.pool.clients, client = .idle) ∧
        (∀ worker ∈ s.server.pool.workers,
          worker = if s.server.pool.stopping then .exited else .asleep)) ∧
      (∀ o ∈ s.objects, o.destroyed = true) ∧ s.held = [] ∧
      s.descriptors = [.acquired 3, .used 3, .used 3, .used 3, .closed 3])) = some true by
        decide +kernel)
  obtain ⟨⟨howner, hstoppers, hconnections, hcounted⟩, ⟨htasks, hfinished, hclients, hworkers⟩,
    hdestroyed, hheld, hdescriptors⟩ := of_decide_eq_true hend
  exact ⟨s, hs, ⟨.inl howner, hstoppers, ⟨htasks, hfinished ▸ List.Perm.refl _, hclients, hworkers⟩,
    hconnections, hcounted⟩, hdestroyed, hheld, hdescriptors⟩

/-- A descriptor is acquired, used for the handshake, a read and a write, and
closed. -/
theorem no_descriptor_leaks_greeted :
    ∃ s, (machine greeter).run (machine greeter).init closedRun = some s ∧
      s.descriptors = [.acquired 3, .used 3, .used 3, .used 3, .closed 3] ∧
      (Socket.life 3).run false s.descriptors = some false ∧
      s.descriptors.count (.closed 3) = s.descriptors.count (.acquired 3) := by
  obtain ⟨s, hs, hrest, hdestroyed, hheld, hdescriptors⟩ := exists_closed
  obtain ⟨-, hlives, hclosed⟩ := no_descriptor_leaks ⟨closedRun, hs⟩
  refine ⟨s, hs, hdescriptors, ?_, hclosed hrest (fun c => destroy_eq_none.2 (.inr ?_)) 3⟩
  · rw [hlives, hheld]
    rfl
  · exact fun o hc => hdestroyed o (List.mem_of_getElem? hc)

end HttpsServer.System
