import HttpsServer.Connection.Ending
import HttpsServer.Parser.Pipeline
import HttpsServer.System.Descriptors
import HttpsServer.System.Work

/-!
# HttpsServer.System.Completion

A server deals with what arrives, and winds down when it has been stopped.

A thread waits for the network, or it has something to do (`Waiting.of_stuck`);
what it has to do comes to an end, and by then every request that `parse` finds in
what has arrived on a connection that is served has been answered
(`comes_to_wait`).  `stop` closes the listener; it sets no timeout, and a thread that
waits goes on when its own call returns or throws.  What the bytes that still
arrive make the threads do is bounded, and when the network has answered every
call, every connection has been destroyed and every descriptor closed
(`winds_down`).
-/

namespace HttpsServer.System

open Server (RunEnd)

variable {setup : Setup} {s t : State}

/-! ## Moves -/

/-- The next step of `connection->run`, on a network that has nothing more. -/
def nextMove : Session.Control → Move
  | .outside => .enter
  | .looping => .loopTest
  | .reading => .parse
  | .receiving => .receive .failed
  | .handling _ => .handle
  | .sending _ _ => .send .failed
  | .closing => .leave

theorem exists_nextMove (setup : Setup) (session : Session.State) :
    ∃ a session', (nextMove session.control).action setup session.control = some a ∧
      session.step a = some session' := by
  cases hs : session.control <;> simp [nextMove, Move.action, Session.State.step, hs]

/-- The end of `run` is seen by the server. -/
theorem exists_endRun {u : Server.State} {w c : Nat} (hw : u.serving w = some c)
    (hpooled : u.connections[c]? = some .pooled) (result : RunEnd) :
    ∃ v, u.step (.endRun w result) = some v := by
  obtain ⟨task, hruns, rfl⟩ := Server.State.runs_of_serving hw
  have hworker : u.pool.workers[w]? = some (.running task) := hruns
  cases hthrows : result.throws with
  | false => simp [Server.State.step, hw, hpooled, Server.State.endRun, hthrows]
  | true =>
      simp [Server.State.step, hw, hpooled, Server.State.endRun, hthrows, Server.State.poolStep,
        Server.State.setPhase, ThreadPool.State.step, hworker]

/-- A worker inside `run` can go on. -/
theorem State.exists_run (setup : Setup) (hidle : Server.IdleTeardown s.server) {w c : Nat}
    {o : Object} (hw : s.server.serving w = some c)
    (hpooled : s.server.connections[c]? = some .pooled) (hc : s.objects[c]? = some o) :
    s.step setup (.run w (nextMove o.session.control)) ≠ none := by
  obtain ⟨a, session, ha, hsession⟩ := exists_nextMove setup o.session
  have hlive : ∀ b ∈ routeCall w a, s.server.usesDestroyed b = false := by
    cases a with
    | handle result =>
        simp only [routeCall, List.forall_mem_singleton]
        exact hidle.usesDestroyed (.routed hw hpooled)
    | _ => exact List.forall_mem_nil _
  have hroute : (Server.machine setup.workers).run s.server (routeCall w a) = some s.server := by
    cases a with
    | handle result =>
        refine Machine.run_cons_eq_some.2 ⟨s.server, ?_, rfl⟩
        simp [Server.machine, Server.State.step, hw, hpooled]
    | _ => rfl
  obtain ⟨v, hv⟩ : ∃ v,
      (Server.machine setup.workers).run s.server (runEnded w a session) = some v := by
    unfold runEnded
    split
    · obtain ⟨v, hv⟩ := exists_endRun hw hpooled (runEnd a)
      exact ⟨v, Machine.run_cons_eq_some.2 ⟨v, hv, rfl⟩⟩
    · exact ⟨_, rfl⟩
  have hserver : (Server.machine setup.workers).run s.server (serverActions w a session) = some v :=
    Machine.run_append_eq_some.2 ⟨s.server, hroute, hv⟩
  simpa [State.step, State.run, hw, hpooled, hc, ha, hsession, hserver] using hlive

/-- A step of the server alone that is not enabled in the system is not enabled in
the server. -/
theorem State.server_step_eq_none (hidle : Server.IdleTeardown s.server) {b : Server.Action}
    (hinternal : internal b = true) (h : s.step setup (.server b) = none) :
    s.server.step b = none := by
  refine Option.eq_none_iff_forall_ne_some.2 fun v hb => ?_
  have hlive := hidle.usesDestroyed (.of_step hb)
  simp [State.step, hinternal, hlive, hb] at h

/-- The destructor is called by nobody inside. -/
theorem Step.idleTeardown {a : Action} (hst : Step setup s a t) (ha : a ≠ .server .destroy)
    (h : Server.IdleTeardown s.server) : Server.IdleTeardown t.server := by
  cases hst with
  | server _ hb => exact h.step (fun hdestroy => ha (hdestroy ▸ rfl)) (.of_step hb)
  | accepted _ _ hb | handshaken _ _ _ hb => exact h.step (by simp) (.of_step hb)
  | ran _ _ _ _ _ hrun =>
      rcases run_serverActions hrun with ⟨-, rfl⟩ | ⟨-, hend⟩
      · exact h
      · exact h.step (by simp) hend
  | destroyed => exact h

/-! ## Waiting for a client -/

/-- The client has got the answers to the requests that `parse` has found, and is to
send the rest of one, or it is to take an answer. -/
def AwaitsClient (session : Session.State) : Prop :=
  match session.control with
  | .receiving =>
    requestVerdict session.connection.limits session.connection.readBuffer = .more ∧
      ClientRequest.NoneWhole session.connection.limits session.connection.readBuffer ∧
      (Session.requests session.log).map Prod.fst = (Session.exchanges session.log).map Prod.fst
  | .sending _ _ => True
  | _ => False

/-- Every thread is done or waits for the network, and the connections that
nobody keeps are gone. -/
structure Waiting (s : State) : Prop where
  server : Server.Waiting s.server
  clients : ∀ (w c : Nat) (o : Object), s.server.serving w = some c →
    s.server.connections[c]? = some .pooled → s.objects[c]? = some o → AwaitsClient o.session
  destroyed : ∀ (c : Nat) (o : Object), s.server.references c = false → s.objects[c]? = some o →
    o.destroyed = true

/-- Nothing is left to be done, and nothing is left open. -/
structure Finished (s : State) : Prop where
  server : Server.Rested s.server
  destroyed : ∀ o ∈ s.objects, o.destroyed = true
  closed : ∀ fd, s.descriptors.count (.closed fd) = s.descriptors.count (.acquired fd)

theorem Waiting.stuck (h : Waiting s) : (machine setup).Stuck (fun a => a.own = true) s := by
  intro a hown
  refine Option.eq_none_iff_forall_ne_some.2 fun t hst => ?_
  cases Step.of_step hst with
  | @server b v _ hb =>
      simp only [Action.own, Bool.and_eq_true, Bool.not_eq_true'] at hown
      have hnone := h.server.stuck (n := setup.workers) b hown
      exact Option.some_ne_none v (hb.symm.trans hnone)
  | accepted | handshaken => cases hown
  | @ran w c move o a session v hw hpooled hc ha hsession _ =>
      have hawaits := h.clients w c o hw hpooled hc
      cases move with
      | receive | send => cases hown
      | enter | loopTest | parse | handle | leave =>
          cases hcontrol : o.session.control <;>
            simp [AwaitsClient, Move.action, Session.State.step, hcontrol] at hawaits ha hsession
          all_goals
            subst ha
            simp at hsession
  | @destroyed c o hreferences hc hlive =>
      rw [h.destroyed c o hreferences hc] at hlive
      cases hlive

/-- **Where no thread takes a step of its own, every thread is done or waits for a
client that has got its answers.** -/
theorem Waiting.of_stuck (h : (machine setup).Reachable s) (hidle : Server.IdleTeardown s.server)
    (hstuck : (machine setup).Stuck (fun a => a.own = true) s) : Waiting s := by
  have hnone : ∀ a : Action, a.own = true → s.step setup a = none := fun a hown => hstuck a hown
  refine ⟨Server.Waiting.of_stuck (server_reachable h) ?_, fun w c o hw hpooled hc => ?_,
    fun c o hreferences hc => ?_⟩
  · rintro b ⟨hown, hwaits⟩
    have hinternal : internal b = true := by
      cases b <;> first | rfl | contradiction
    exact State.server_step_eq_none hidle hinternal
      (hnone (.server b) (by simp [Action.own, hown, hwaits]))
  · obtain ⟨fd, -, hsession⟩ := session_reachable h hc
    have hmove := State.exists_run setup hidle hw hpooled hc
    unfold AwaitsClient
    cases hcontrol : o.session.control with
    | receiving =>
        obtain ⟨pending, hpending, -, hanswered⟩ :=
          (Served.of_reachable h hc).answered (.of_reachable hsession)
        rw [hanswered hcontrol, List.append_nil] at hpending
        have hmore := (Session.Ending.of_reachable hsession).waiting hcontrol
        exact ⟨hmore, ClientRequest.noneWhole_of_more hmore, hpending⟩
    | sending => trivial
    | outside | looping | reading | handling | closing =>
        rw [hcontrol] at hmove
        exact hmove (hnone _ rfl)
  · refine (destroy_eq_none.1 (hnone (.destroy c) rfl)).resolve_left ?_ o hc
    rw [hreferences]
    exact Bool.false_ne_true

/-- **A server deals with what arrives.**  From every reachable state, stopped or
not, the threads take a bounded number of steps of their own, and where they have
none left each of them is done or waits for the network: by then the workers are
all busy or the queue is empty, and a connection that is served has answered all
requests that `parse` finds in what it has received, or it is about to send an
answer.  `~Server` must not be executed while tasks are left. -/
theorem comes_to_wait (h : (machine setup).Reachable s) (hidle : Server.IdleTeardown s.server) :
    (∀ as t, (machine setup).run s as = some t → (∀ a ∈ as, a.own = true) →
      as.length + t.workToWait setup.workers ≤ s.workToWait setup.workers ∧
        ((machine setup).Stuck (fun a => a.own = true) t ↔ Waiting t)) ∧
    ∃ as t, (machine setup).run s as = some t ∧ (∀ a ∈ as, a.own = true) ∧ Waiting t := by
  have hstep : ∀ u a v, (machine setup).Reachable u ∧ Server.IdleTeardown u.server → a.own = true →
      (machine setup).step u a = some v →
      ((machine setup).Reachable v ∧ Server.IdleTeardown v.server) ∧
        v.workToWait setup.workers < u.workToWait setup.workers := by
    rintro u a v ⟨hu, hidle⟩ hown huv
    have hst := Step.of_step huv
    have hnot : a ≠ .server .destroy := by
      rintro rfl
      cases hown
    exact ⟨⟨hu.step huv, hst.idleTeardown hnot hidle⟩, hst.workToWait hu hown⟩
  refine ⟨fun as t hrun has => ⟨Machine.run_length_le hstep hrun has ⟨h, hidle⟩, ?_⟩, ?_⟩
  · obtain ⟨ht, hidle'⟩ := Machine.run_along (P := fun _ a => a.own = true)
      (fun u a v hu ha huv => (hstep u a v hu ha huv).1) hrun (.of_forall has s) ⟨h, hidle⟩
    exact ⟨.of_stuck ht hidle', Waiting.stuck⟩
  · obtain ⟨as, t, hrun, has, ⟨ht, hidle'⟩, hstuck⟩ := Machine.exists_run_stuck hstep ⟨h, hidle⟩
    exact ⟨as, t, hrun, has, .of_stuck ht hidle' hstuck⟩

/-- A request has arrived. -/
theorem comes_to_wait_received :
    ∃ s, (machine greeter).run (machine greeter).init
        (takenRun ++ [.run 0 .enter, .run 0 .loopTest, .run 0 .parse,
          .run 0 (.receive (.data (ascii "GET / HTTP/1.1\r\n\r\n")))]) = some s ∧
      ∃ as t, (machine greeter).run s as = some t ∧ (∀ a ∈ as, a.own = true) ∧ Waiting t := by
  have hrun : (machine greeter).run (machine greeter).init
      (takenRun ++ [.run 0 .enter, .run 0 .loopTest, .run 0 .parse,
        .run 0 (.receive (.data (ascii "GET / HTTP/1.1\r\n\r\n")))]) = some _ := rfl
  obtain ⟨-, hend⟩ := comes_to_wait ⟨_, hrun⟩ fun hin => by cases hin
  exact ⟨_, hrun, hend⟩

/-! ## The end -/

/-- A step of the threads, or an answer of a network that delivers no more bytes. -/
def Action.drains (n : Nat) (a : Action) : Bool := (a.own || a.answers) && a.brings n == 0

theorem Finished.stuck (h : Finished s) :
    (machine setup).Stuck (fun a => a.drains setup.workers = true) s := by
  intro a hdrains
  simp only [Action.drains, Bool.and_eq_true] at hdrains
  have hrest : ∀ {b : Server.Action} {v : Server.State}, b.own = true → s.server.step b ≠ some v :=
    fun hb hstep =>
      Option.some_ne_none _ (hstep.symm.trans (h.server.atRest (n := setup.workers) _ hb))
  refine Option.eq_none_iff_forall_ne_some.2 fun t hst => ?_
  cases Step.of_step hst with
  | @server b _ _ hb =>
      have hown : b.own = true := by
        have := hdrains.1
        revert this
        cases b <;> simp [Action.own, Action.answers, Server.Action.own, Server.Action.waits]
      exact hrest hown hb
  | accepted _ _ hb | handshaken _ _ _ hb => exact hrest rfl hb
  | ran hw hpooled =>
      obtain ⟨v, hv⟩ := exists_endRun hw hpooled .returned
      exact hrest rfl hv
  | destroyed _ hc hlive =>
      rw [h.destroyed _ (List.mem_of_getElem? hc)] at hlive
      cases hlive

/-- **Where no thread takes a step and the network has no answer without bytes,
nothing is left to be done.** -/
theorem Finished.of_stuck (hn : 0 < setup.workers) (h : (machine setup).Reachable s)
    (hidle : Server.IdleTeardown s.server)
    (hstuck : (machine setup).Stuck (fun a => a.drains setup.workers = true) s) : Finished s := by
  have hreach := server_reachable h
  have hconsistent := Consistent.of_reachable h
  have hnone : ∀ a : Action, a.drains setup.workers = true → s.step setup a = none :=
    fun a hdrains => hstuck a hdrains
  have hobject : ∀ {c : Nat} {p : Server.Phase}, s.server.connections[c]? = some p →
      ∃ o, s.objects[c]? = some o := fun hc =>
    ⟨_, List.getElem?_eq_getElem (hconsistent.length ▸ (List.getElem?_eq_some_iff.1 hc).1)⟩
  have hinside : ∀ {b : Server.Action}, internal b = true → b.own = true →
      s.server.step b = none := by
    intro b hinternal hown
    refine State.server_step_eq_none hidle hinternal (hnone (.server b) ?_)
    have hfree := Server.Action.brings_of_own setup.workers hown
    cases hwaits : b.waits <;>
      simp [Action.drains, Action.own, Action.answers, Action.brings, hown, hwaits, hfree]
  have hrested : Server.Rested s.server := by
    refine .of_stuck hn hreach fun b hown => ?_
    by_cases hinternal : internal b = true
    · exact hinside hinternal hown
    · refine Option.eq_none_iff_forall_ne_some.2 fun v hb => ?_
      cases Server.Step.of_step hb with
      | accepted howner _ =>
          have hthrown := hinside (b := .accept false) rfl rfl
          simp [Server.State.step, howner] at hthrown
      | handshakeSucceeded howner | handshakeFailed howner | handshakeThrew howner =>
          -- the handshake may fail
          have hphase := (Server.Accounts.of_reachable hreach).position _ _ (by rw [howner]; rfl)
          obtain ⟨o, hc⟩ := hobject hphase
          have hcontrol := hconsistent.idle _ o hc (by simp [hphase])
          have hrefused := hnone (.handshake .refused) rfl
          simp [State.step, State.handshake, howner, hc, Session.State.step, hcontrol,
            Server.State.step] at hrefused
      | runReturned hw hpooled | runThrew hw hpooled _ _ =>
          obtain ⟨o, hc⟩ := hobject hpooled
          refine State.exists_run setup hidle hw hpooled hc
            (hnone (.run _ (nextMove o.session.control)) ?_)
          cases o.session.control <;> rfl
      | _ => first | exact hinternal rfl | cases hown
  have hdestroyed : ∀ o ∈ s.objects, o.destroyed = true := by
    intro o ho
    obtain ⟨c, hc⟩ := List.mem_iff_getElem?.1 ho
    refine (destroy_eq_none.1 (hnone (.destroy c) rfl)).resolve_left ?_ o hc
    rw [unreferenced_of_rested hrested]
    exact Bool.false_ne_true
  exact ⟨hrested, hdestroyed, closed_of_destroyed h hdestroyed⟩

/-- **A stopped server winds down as far as the network lets it.**  From the moment
`stopping_` is set, the steps of the threads' own and the answers they get from
the network are no more than the work that is left, the calls from outside and the
bytes that clients send are worth.  A thread that waits for the network waits on
until its call is answered, whatever the other threads do.  Nothing else holds the
threads up; a client that is waited for has got all its answers, but for one that
it has not taken yet.  And if the network answers what is waited for, without more
bytes, the server comes to rest with every connection destroyed and every
descriptor closed.  `~Server` must not be executed while tasks are left. -/
theorem winds_down (hn : 0 < setup.workers) (h : (machine setup).Reachable s)
    (hstop : s.server.stopping = true) (hidle : Server.IdleTeardown s.server) :
    (∀ as t, (machine setup).run s as = some t →
      as.countP (fun a => a.own || a.answers) + t.work setup.workers ≤
        s.work setup.workers + (as.map (Action.brings setup.workers)).sum) ∧
    (∀ as t, (machine setup).run s as = some t → (∀ a ∈ as, a.answers = false) →
      (s.server.owner.waits = true → t.server.owner = s.server.owner) ∧
        ∀ (c : Nat) (o : Object), s.objects[c]? = some o → o.session.control.waits = true →
          t.objects[c]? = some o) ∧
    ((machine setup).Stuck (fun a => a.own = true) s ↔ Waiting s) ∧
    ((machine setup).Stuck (fun a => a.drains setup.workers = true) s ↔ Finished s) ∧
    ∃ as t, (machine setup).run s as = some t ∧ (∀ a ∈ as, a.drains setup.workers = true) ∧
      Finished t := by
  have hstep : ∀ u a v, (machine setup).Reachable u ∧ u.server.stopping = true →
      (machine setup).step u a = some v →
      ((machine setup).Reachable v ∧ v.server.stopping = true) ∧
        (if a.own || a.answers then 1 else 0) + v.work setup.workers ≤
          u.work setup.workers + a.brings setup.workers := by
    intro u a v hu huv
    have hst := Step.of_step huv
    exact ⟨⟨hu.1.step huv, hst.stopping_mono hu.2⟩, hst.work hu.1 hu.2⟩
  refine ⟨fun as t hrun => ?_, fun as t => waits_on h, ⟨.of_stuck h hidle, Waiting.stuck⟩,
    ⟨.of_stuck hn h hidle, Finished.stuck⟩, ?_⟩
  · rw [← Machine.sum_map_ite_one]
    exact Machine.run_spend_le hstep hrun ⟨h, hstop⟩
  · have hless : ∀ u a v, ((machine setup).Reachable u ∧ u.server.stopping = true) ∧
        Server.IdleTeardown u.server → a.drains setup.workers = true →
        (machine setup).step u a = some v →
        (((machine setup).Reachable v ∧ v.server.stopping = true) ∧
          Server.IdleTeardown v.server) ∧ v.work setup.workers < u.work setup.workers := by
      rintro u a v ⟨hu, hidle⟩ hdrains huv
      obtain ⟨hv, hwork⟩ := hstep u a v hu huv
      simp only [Action.drains, Bool.and_eq_true, beq_iff_eq] at hdrains
      rw [if_pos hdrains.1, hdrains.2] at hwork
      have hnot : a ≠ .server .destroy := by
        rintro rfl
        cases hdrains.1
      exact ⟨⟨hv, (Step.of_step huv).idleTeardown hnot hidle⟩, by omega⟩
    obtain ⟨as, t, hrun, has, ⟨ht, hidle'⟩, hstuck⟩ :=
      Machine.exists_run_stuck hless ⟨⟨h, hstop⟩, hidle⟩
    exact ⟨as, t, hrun, has, .of_stuck hn ht.1 hidle' hstuck⟩

/-- `stop` is called while worker 0 waits for a request. -/
theorem winds_down_receiving :
    ∃ s, (machine greeter).run (machine greeter).init
        (takenRun ++ [.run 0 .enter, .run 0 .loopTest, .run 0 .parse, .server .callStop,
          .server (.stopStmt 0)]) = some s ∧
      ∃ as t, (machine greeter).run s as = some t ∧ (∀ a ∈ as, a.drains 1 = true) ∧
        Finished t := by
  have hworkers : 0 < greeter.workers := Nat.one_pos
  have hrun : (machine greeter).run (machine greeter).init
      (takenRun ++ [.run 0 .enter, .run 0 .loopTest, .run 0 .parse, .server .callStop,
        .server (.stopStmt 0)]) = some _ := rfl
  obtain ⟨-, -, -, -, hend⟩ := winds_down hworkers ⟨_, hrun⟩ rfl fun hin => by cases hin
  exact ⟨_, hrun, hend⟩

end HttpsServer.System
