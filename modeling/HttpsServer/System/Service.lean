import HttpsServer.Connection.Buffer
import HttpsServer.Connection.Containment
import HttpsServer.Parser.Slices
import HttpsServer.System.Projection

/-!
# HttpsServer.System.Service

What a client gets from a server that serves many.

The connections of a server share its threads and its router.  Still each is
used by one thread at a time (`exclusive_use`); with TLS nothing is moved in the
clear, and no request is handled before the handshake (`tls_everywhere`); and the
answers a client reads are the router's answers to what it has sent itself, in
that order (`own_requests_answered`).
-/

namespace HttpsServer.System

variable {setup : Setup} {s : State}

/-! ## Threads -/

/-- The threads that call member functions of connections. -/
inductive Thread where
  | owner
  | worker (w : Nat)
  deriving DecidableEq

/-- The thread that takes a step on a connection, and the connection. -/
def State.uses (s : State) : Action → Option (Thread × Nat)
  | .handshake _ =>
    match s.server.owner with
    | .handshaking c => some (.owner, c)
    | _ => none
  | .run w _ => (s.server.serving w).map fun c => (.worker w, c)
  | .server _ | .accept _ | .destroy _ => none

/-- A connection is served by one worker. -/
theorem serving_unique {u : Server.State} (hjobs : Server.Jobs u) {w w' c : Nat}
    (hw : u.serving w = some c) (hw' : u.serving w' = some c) : w = w' := by
  obtain ⟨task, hruns, rfl⟩ := Server.State.runs_of_serving hw
  obtain ⟨task', hruns', hcallable⟩ := Server.State.runs_of_serving hw'
  have hnodup := hjobs.nodup
  rw [Server.State.jobs, List.map_append] at hnodup
  have hheld := hnodup.of_append_left
  rw [ThreadPool.State.held, List.map_filterMap] at hheld
  refine slot_unique_of_nodup hheld hruns hruns' rfl ?_
  simp [ThreadPool.Worker.task?, hcallable]

/-- The connection a thread uses, in what phase it is, and who keeps it. -/
theorem Step.of_uses {t : State} {a : Action} {T : Thread} {c : Nat}
    (h : (machine setup).Reachable s) (hst : Step setup s a t) (huses : s.uses a = some (T, c)) :
    s.server.references c = true ∧
      (T = .owner ∧ s.server.connections[c]? = some .handshaking ∨
        ∃ w, T = .worker w ∧ s.server.serving w = some c ∧
          s.server.connections[c]? = some .pooled) := by
  rw [Server.State.references_iff]
  cases hst with
  | server | accepted | destroyed => cases huses
  | handshaken howner =>
      simp only [State.uses, howner, Option.some.injEq, Prod.mk.injEq] at huses
      obtain ⟨rfl, rfl⟩ := huses
      refine ⟨.inl (by rw [Server.State.frame, howner]), .inl ⟨rfl, ?_⟩⟩
      exact (Server.Accounts.of_reachable (server_reachable h)).position _ _ (by rw [howner]; rfl)
  | @ran w c' _ _ _ _ _ hw hpooled =>
      simp only [State.uses, hw, Option.map_some, Option.some.injEq, Prod.mk.injEq] at huses
      obtain ⟨rfl, rfl⟩ := huses
      exact ⟨.inr (Server.State.mem_jobs_of_serving hw), .inr ⟨w, rfl, hw, hpooled⟩⟩

/-- **A connection is used by one thread at a time, and by none after its
destruction.** -/
theorem exclusive_use (h : (machine setup).Reachable s) {a : Action} {t : State}
    (ha : s.step setup a = some t) {T : Thread} {c : Nat} (huses : s.uses a = some (T, c)) :
    (∃ o, s.objects[c]? = some o ∧ o.destroyed = false) ∧
      ∀ b u T', s.step setup b = some u → s.uses b = some (T', c) → T' = T := by
  have hconsistent := Consistent.of_reachable h
  obtain ⟨hreferences, hthread⟩ := (Step.of_step ha).of_uses h huses
  refine ⟨?_, fun b u T' hb huses' => ?_⟩
  · have hlt : c < s.objects.length := by
      rw [hconsistent.length]
      rcases hthread with ⟨-, hc⟩ | ⟨w, -, -, hc⟩
      · exact (List.getElem?_eq_some_iff.1 hc).1
      · exact (List.getElem?_eq_some_iff.1 hc).1
    refine ⟨_, List.getElem?_eq_getElem hlt, Bool.eq_false_iff.2 fun hdestroyed => ?_⟩
    have hfree := hconsistent.destroyed c _ (List.getElem?_eq_getElem hlt) hdestroyed
    rw [hreferences] at hfree
    cases hfree
  · obtain ⟨-, hthread'⟩ := (Step.of_step hb).of_uses h huses'
    rcases hthread with ⟨rfl, hc⟩ | ⟨w, rfl, hw, hc⟩ <;>
      rcases hthread' with ⟨rfl, hc'⟩ | ⟨w', rfl, hw', hc'⟩
    · rfl
    · cases hc.symm.trans hc'
    · cases hc.symm.trans hc'
    · rw [serving_unique (.of_reachable (server_reachable h)) hw hw']

/-- Worker 0 is about to enter `run`. -/
theorem exclusive_use_taken :
    ∃ s, (machine greeter).run (machine greeter).init takenRun = some s ∧
      ∃ o, s.objects[(0 : Nat)]? = some o ∧ o.destroyed = false := by
  have hrun : (machine greeter).run (machine greeter).init takenRun = some _ := rfl
  obtain ⟨halive, -⟩ := exclusive_use ⟨takenRun, hrun⟩ (a := .run 0 .enter) rfl
    (T := .worker 0) (c := 0) rfl
  exact ⟨_, hrun, halive⟩

/-! ## TLS -/

/-- **With TLS, no connection of a server moves a byte in the clear, and the
router gets no request of a client before its handshake has succeeded.** -/
theorem tls_everywhere (htls : setup.tlsEnabled = true) (h : (machine setup).Reachable s) {c : Nat}
    {o : Object} (hc : s.objects[c]? = some o) : Session.Confidential o.session := by
  refine (objects_invariant (P := Session.Sealed) (fun fd _ => ?_) ?_ h hc).toConfidential
  · have hinit := Session.Sealed.init ⟨fd⟩ setup.limits setup.keepAliveTimeoutSeconds
    rw [Setup.connection, htls]
    exact hinit
  · intro session b session' hsealed hlawful hstep
    refine hsealed.step ?_ (.of_step hstep)
    cases b with
    | run => exact .inl hlawful.1
    | _ => trivial

theorem tls_everywhere_greeted :
    ∃ s o, (machine greeter).run (machine greeter).init greetedRun = some s ∧
      s.objects[(0 : Nat)]? = some o ∧ Session.Confidential o.session := by
  obtain ⟨s, o, hs, ho, -⟩ := exists_greeted
  exact ⟨s, o, hs, ho, tls_everywhere rfl ⟨greetedRun, hs⟩ ho⟩

/-! ## Answers -/

/-- What a session has handed to the router and got from it. -/
structure Served (setup : Setup) (session : Session.State) : Prop where
  limits : session.connection.limits = setup.limits
  sliced : ∀ p ∈ Session.requests session.log,
    requestVerdict setup.limits p.2 = .done p.1 p.2.length
  routed : ∀ x ∈ Session.given session.log, setup.route x.1 = some x.2
  /-- Only the last call can have thrown. -/
  called : ∃ thrown, Session.calls session.log = (Session.given session.log).map Prod.fst ++ thrown ∧
    (thrown = [] ∨ session.control = .outside ∧ ∃ request, thrown = [request])

theorem Served.of_inside {session : Session.State} (h : Served setup session)
    (hcontrol : session.control ≠ .outside) :
    Session.calls session.log = (Session.given session.log).map Prod.fst := by
  obtain ⟨thrown, hcalls, hthrown⟩ := h.called
  obtain rfl := hthrown.resolve_right fun hout => hcontrol hout.1
  rw [hcalls, List.append_nil]

/-- A step in which the router takes no part. -/
theorem Served.append {session session' : Session.State} {new : List Session.Event}
    (h : Served setup session) (hlog : session'.log = session.log ++ new)
    (hlimits : session'.connection.limits = session.connection.limits)
    (hsliced : ∀ p ∈ Session.requests new, requestVerdict setup.limits p.2 = .done p.1 p.2.length)
    (hgiven : Session.given new = []) (hcalls : Session.calls new = [])
    (hcontrol : session.control = .outside → session'.control = .outside ∨
      Session.calls session.log = []) : Served setup session' where
  limits := hlimits.trans h.limits
  sliced := by
    intro p hp
    rw [hlog, Session.requests_append, List.mem_append] at hp
    exact hp.elim (h.sliced p) (hsliced p)
  routed := by
    intro x hx
    rw [hlog, Session.given_append, hgiven, List.append_nil] at hx
    exact h.routed x hx
  called := by
    rw [hlog, Session.calls_append, Session.given_append, hgiven, hcalls, List.append_nil,
      List.append_nil]
    obtain ⟨thrown, heq, hthrown⟩ := h.called
    refine ⟨thrown, heq, ?_⟩
    rcases hthrown with hnone | ⟨hout, request, hrequest⟩
    · exact .inl hnone
    · rcases hcontrol hout with hstays | hempty
      · exact .inr ⟨hstays, request, hrequest⟩
      · rw [hempty] at heq
        exact .inl (List.append_eq_nil_iff.1 heq.symm).2

theorem Served.step {session session' : Session.State} {a : Session.Action}
    (h : Served setup session) (hlawful : Lawful setup session a)
    (hst : Session.Step session a session') : Served setup session' := by
  cases hst with
  | @handshaken outcome hs =>
      obtain ⟨tls, complete, he⟩ := session.connection.handshake_eq outcome
      refine h.append rfl (by rw [he]) ?_ ?_ ?_ fun _ => .inl hs
      all_goals cases (session.connection.handshake outcome).2 <;> first | rfl | exact List.forall_mem_nil _
  | closed hs =>
      exact h.append (List.append_nil _).symm rfl (List.forall_mem_nil _) rfl rfl fun _ => .inl hs
  | entered hs =>
      have hnone : Session.calls session.log = [] := by
        refine List.filterMap_eq_nil_iff.2 fun e he => ?_
        obtain ⟨success, rfl⟩ := hlawful.2 e he
        rfl
      exact h.append (List.append_nil _).symm rfl (List.forall_mem_nil _) rfl rfl fun _ => .inr hnone
  | continued hs _ | left hs _ | wanting hs _ =>
      exact h.append (List.append_nil _).symm rfl (List.forall_mem_nil _) rfl rfl fun hout => by
        rw [hs] at hout
        cases hout
  | @parsed request consumed hs hv =>
      refine h.append rfl rfl (fun p hp => ?_) rfl rfl fun hout => ?_
      · obtain rfl : p = (request, session.connection.readBuffer.take consumed) := by
          simpa [Session.requests] using hp
        rw [h.limits] at hv
        have hlen := (requestVerdict_done hv).2
        rw [List.length_take, Nat.min_eq_left hlen]
        exact requestVerdict_take hv
      · rw [hs] at hout
        cases hout
  | rejected hs _ | received hs _ _ | ended hs _ _ | sent hs _ | returned hs =>
      exact h.append rfl rfl (List.forall_mem_nil _) rfl rfl fun hout => by
        rw [hs] at hout
        cases hout
  | @handled request response hs =>
      obtain ⟨request', hrequest, hresponse⟩ := hlawful
      cases hs.symm.trans hrequest
      have hcalls := h.of_inside (by simp [hs])
      refine ⟨h.limits, fun p hp => h.sliced p (by simpa [Session.requests] using hp),
        fun x hx => ?_, [], ?_, .inl rfl⟩
      · rw [Session.given_append, List.mem_append] at hx
        cases hx with
        | inl hbefore => exact h.routed x hbefore
        | inr hnew =>
            obtain rfl : x = (request, response) := by simpa [Session.given] using hnew
            exact hresponse.symm
      · rw [Session.calls_append, Session.given_append, hcalls]
        simp [Session.calls, Session.given]
  | @threw request hs =>
      have hcalls := h.of_inside (by simp [hs])
      refine ⟨h.limits, fun p hp => h.sliced p (by simpa [Session.requests] using hp),
        fun x hx => h.routed x (by simpa [Session.given] using hx), [request], ?_,
        .inr ⟨rfl, request, rfl⟩⟩
      rw [Session.calls_append, Session.given_append, hcalls]
      simp [Session.calls, Session.given]

theorem Served.of_reachable (h : (machine setup).Reachable s) {c : Nat} {o : Object}
    (hc : s.objects[c]? = some o) : Served setup o.session :=
  objects_invariant (fun _ _ => ⟨rfl, nofun, nofun, [], rfl, .inl rfl⟩)
    (fun _ _ _ hserved hlawful hstep => hserved.step hlawful (.of_step hstep)) h hc

/-- All requests but the last have been answered, and this one too when the next
is waited for. -/
theorem Served.answered {session : Session.State} (h : Served setup session)
    (hconserved : Session.Conserved session) :
    ∃ pending, (Session.requests session.log).map Prod.fst =
        (Session.exchanges session.log).map Prod.fst ++ pending ∧
      pending.length ≤ 1 ∧ (session.control = .receiving → pending = []) := by
  obtain ⟨thrown, hcalls, hthrown⟩ := h.called
  refine ⟨session.control.toSend.map Prod.fst ++ thrown ++ session.control.toHandle, ?_, ?_, ?_⟩
  · rw [hconserved.handled, hcalls, hconserved.sent, List.map_append]
    simp only [List.append_assoc]
  · rcases hthrown with rfl | ⟨hout, request, rfl⟩
    · cases session.control <;> simp [Session.Control.toSend, Session.Control.toHandle]
    · rw [hout]
      exact Nat.le_refl 1
  · intro hcontrol
    rcases hthrown with rfl | ⟨hout, -⟩
    · rw [hcontrol]
      rfl
    · rw [hout] at hcontrol
      cases hcontrol

/-- An exchange is a request and what the router makes of it. -/
theorem Served.exchanged {session : Session.State} (h : Served setup session)
    (hconserved : Session.Conserved session) :
    ∀ x ∈ Session.exchanges session.log, setup.route x.1 = some x.2 := by
  intro x hx
  refine h.routed x ?_
  rw [hconserved.sent]
  exact List.mem_append_left _ hx

/-- **A client gets the router's answers to its own requests, in their order.**
What a connection has received is what its requests were taken from, and the
buffer; each request is what its own bytes say; and all of them but the last
have been answered with what the router makes of them, whatever the other
connections have received in between. -/
theorem own_requests_answered (h : (machine setup).Reachable s) {c : Nat} {o : Object}
    (hc : s.objects[c]? = some o) :
    Session.receivedBytes o.session.log =
        (Session.requests o.session.log).flatMap Prod.snd ++ o.session.connection.readBuffer ∧
      (∀ p ∈ Session.requests o.session.log,
        requestVerdict setup.limits p.2 = .done p.1 p.2.length) ∧
      (∃ pending, (Session.requests o.session.log).map Prod.fst =
        (Session.exchanges o.session.log).map Prod.fst ++ pending ∧ pending.length ≤ 1) ∧
      (∀ x ∈ Session.exchanges o.session.log, setup.route x.1 = some x.2) ∧
      (Session.WritesComplete o.session.log → Session.sentBytes o.session.log =
        (Session.exchanges o.session.log).flatMap fun x => x.2.serialize) := by
  obtain ⟨fd, -, hsession⟩ := session_reachable h hc
  have hserved := Served.of_reachable h hc
  have hconserved := Session.Conserved.of_reachable hsession
  obtain ⟨pending, hpending, hlast, -⟩ := hserved.answered hconserved
  exact ⟨(Session.Exact.of_reachable hsession rfl).received, hserved.sliced,
    ⟨pending, hpending, hlast⟩, hserved.exchanged hconserved, Session.sentBytes_of_writesComplete⟩

theorem own_requests_answered_greeted :
    ∃ s o, (machine greeter).run (machine greeter).init greetedRun = some s ∧
      s.objects[(0 : Nat)]? = some o ∧ (Session.exchanges o.session.log).length = 1 ∧
      ∀ x ∈ Session.exchanges o.session.log, greeter.route x.1 = some x.2 := by
  obtain ⟨s, o, hs, ho, hone⟩ := exists_greeted
  obtain ⟨-, -, -, hrouted, -⟩ := own_requests_answered ⟨greetedRun, hs⟩ ho
  exact ⟨s, o, hs, ho, hone, hrouted⟩

end HttpsServer.System
