import HttpsServer.Connection.Confidentiality
import HttpsServer.System

/-!
# HttpsServer.System.Projection

The parts of a system do what their own machines say.

A run of the system is a run of the server (`server_reachable`), and each
connection goes through a run of its session.  That session is used as
`handle_connection` promises: `run` is called after a successful handshake, and
its handler is the router.  What such steps preserve, they preserve for every
connection of every run (`objects_invariant`).
-/

namespace HttpsServer.System

variable {setup : Setup} {s t : State}

/-! ## The server -/

/-- What `connection->run` does to the server: nothing, or its end. -/
theorem run_serverActions {n w : Nat} {a : Session.Action} {session : Session.State}
    {u v : Server.State} (h : (Server.machine n).run u (serverActions w a session) = some v) :
    session.control ≠ .outside ∧ v = u ∨
      session.control = .outside ∧ Server.Step u (.endRun w (runEnd a)) v := by
  obtain ⟨u', hroute, hended⟩ := Machine.run_append_eq_some.1 h
  -- routing leaves the server as it is
  obtain rfl : u' = u := by
    cases a with
    | handle =>
        obtain ⟨u'', hstep, hnil⟩ := Machine.run_cons_eq_some.1 hroute
        cases hnil
        cases Server.Step.of_step (a := .route w) hstep
        rfl
    | _ =>
        cases hroute
        rfl
  cases hcontrol : session.control with
  | outside =>
      rw [runEnded, hcontrol] at hended
      obtain ⟨v', hstep, hnil⟩ := Machine.run_cons_eq_some.1 hended
      cases hnil
      exact .inr ⟨rfl, .of_step hstep⟩
  | _ =>
      rw [runEnded, hcontrol] at hended
      cases hended
      exact .inl ⟨nofun, rfl⟩

/-- A step of the system is a run of the server. -/
theorem Step.server_reaches {a : Action} (h : Step setup s a t) :
    (Server.machine setup.workers).Reaches s.server t.server := by
  cases h with
  | @server a _ _ hserver => exact .of_step (a := a) hserver
  | accepted _ _ hserver => exact .of_step (a := .accept true) hserver
  | handshaken _ _ _ hserver => exact .of_step (a := .handshake _) hserver
  | ran _ _ _ _ _ hserver => exact ⟨_, hserver⟩
  | destroyed => exact .refl _

/-- **The server of a system is a server.** -/
theorem server_reachable (h : (machine setup).Reachable s) :
    (Server.machine setup.workers).Reachable s.server :=
  Machine.Reachable.map State.server .init (fun _ _ _ hst => (Step.of_step hst).server_reaches) h

/-! ## Connections and their phases -/

/-- Nothing but a handshake has happened to the connection. -/
def Untouched (session : Session.State) : Prop :=
  ∀ e ∈ session.log, ∃ success, e = .handshaken success

/-- The objects and the phases of the connections agree. -/
structure Consistent (s : State) : Prop where
  length : s.objects.length = s.server.connections.length
  /-- Outside the pool, no thread is inside `run`. -/
  idle : ∀ (c : Nat) (o : Object), s.objects[c]? = some o → s.server.connections[c]? ≠ some .pooled →
    o.session.control = .outside
  admitted : ∀ (c : Nat) (o : Object), s.objects[c]? = some o → s.server.Admitted c →
    o.session.log.any Session.Event.succeeds = true
  /-- `run` is called once. -/
  untouched : ∀ (c : Nat) (o : Object), s.objects[c]? = some o → s.server.Early c →
    o.session.control = .outside → Untouched o.session
  destroyed : ∀ (c : Nat) (o : Object), s.objects[c]? = some o → o.destroyed = true →
    s.server.references c = false

theorem Consistent.lt {c : Nat} {o : Object} (h : Consistent s) (hc : s.objects[c]? = some o) :
    c < s.server.connections.length := h.length ▸ (List.getElem?_eq_some_iff.1 hc).1

theorem succeeds_of_prefix {log more : List Session.Event} (h : log <+: more)
    (hlog : log.any Session.Event.succeeds = true) : more.any Session.Event.succeeds = true := by
  rw [List.any_eq_true] at hlog ⊢
  obtain ⟨e, he, hsucceeds⟩ := hlog
  exact ⟨e, h.subset he, hsucceeds⟩

/-- A connection has a task as long as its phase is `pooled`. -/
theorem not_pooled_of_unreferenced {u : Server.State} (hjobs : Server.Jobs u) {c : Nat}
    (h : u.references c = false) : u.connections[c]? ≠ some .pooled := by
  intro hc
  have hreferences := Server.State.references_iff.2 (.inr (hjobs.job c _ hc (.inl rfl)))
  rw [h] at hreferences
  cases hreferences

/-- What a step of the server leaves of the destroyed objects. -/
theorem Consistent.unreferenced {a : Server.Action} {v : Server.State} (h : Consistent s)
    (hnew : Server.Newest s.server) (hst : Server.Step s.server a v) {c : Nat} {o : Object}
    (hc : s.objects[c]? = some o) (ho : o.destroyed = true) : v.references c = false := by
  refine Bool.eq_false_iff.2 fun hreferences => ?_
  have hbefore := hst.references_mono hnew (h.lt hc) hreferences
  rw [h.destroyed c o hc ho] at hbefore
  cases hbefore

theorem Consistent.server_step {a : Server.Action} {v : Server.State} (h : Consistent s)
    (hserver : (Server.machine setup.workers).Reachable s.server) (ha : internal a = true)
    (hst : Server.Step s.server a v) : Consistent { s with server := v } := by
  have hacc := Server.Accounts.of_reachable hserver
  refine ⟨h.length.trans (hst.length_eq hacc ?_).symm, fun c o hc hp => ?_, fun c o hc hp => ?_,
    fun c o hc hp => h.untouched c o hc (hst.early_back hacc (h.lt hc) hp),
    fun c o hc ho => h.unreferenced (.of_reachable hserver) hst hc ho⟩
  · rintro rfl
    cases ha
  · refine h.idle c o hc fun hpooled => hp (hst.pooled_mono hacc ?_ hpooled)
    rintro w result rfl
    cases ha
  · refine h.admitted c o hc (hst.admitted_back hacc ?_ hp)
    rintro rfl
    cases ha

theorem Consistent.accept {fd : Int} {v : Server.State} (h : Consistent s)
    (hserver : (Server.machine setup.workers).Reachable s.server)
    (hst : Server.Step s.server (.accept true) v) :
    Consistent
      { server := v
        objects := s.objects ++ [{ session := { connection := setup.connection fd } }]
        descriptors := s.descriptors ++ [.acquired fd] } := by
  have hacc := Server.Accounts.of_reachable hserver
  have hback : ∀ {c : Nat}, v.Admitted c → s.server.Admitted c :=
    fun hc => hst.admitted_back hacc nofun hc
  have hlt : ∀ {c : Nat}, s.server.Admitted c → c < s.server.connections.length := by
    rintro c (hpooled | howner)
    · exact (List.getElem?_eq_some_iff.1 hpooled).1
    · exact (List.getElem?_eq_some_iff.1 (hacc.position c _ (by rw [howner]; rfl))).1
  -- the object is an old one, or the one that is constructed
  have hobject : ∀ {c : Nat} {o : Object},
      (s.objects ++ [{ session := { connection := setup.connection fd } }])[c]? = some o →
      s.objects[c]? = some o ∨ c = s.objects.length ∧
        o = { session := { connection := setup.connection fd } } := by
    intro c o hc
    rw [List.getElem?_append] at hc
    split at hc
    · exact .inl hc
    · next hge =>
        rw [List.getElem?_singleton] at hc
        split at hc
        · cases hc
          exact .inr ⟨by omega, rfl⟩
        · cases hc
  cases hst with
  | accepted howner hcan =>
      have hst' := Server.Step.accepted howner hcan
      refine ⟨by simp [h.length], fun c o hc hp => ?_, fun c o hc hp => ?_,
        fun c o hc hp hcontrol => ?_, fun c o hc ho => ?_⟩
      · rcases hobject hc with hold | ⟨-, rfl⟩
        · exact h.idle c o hold fun hpooled => hp (hst'.pooled_mono hacc nofun hpooled)
        · rfl
      · rcases hobject hc with hold | ⟨rfl, -⟩
        · exact h.admitted c o hold (hback hp)
        · have hlen := hlt (hback hp)
          rw [h.length] at hlen
          exact absurd hlen (Nat.lt_irrefl _)
      · rcases hobject hc with hold | ⟨-, rfl⟩
        · exact h.untouched c o hold (hst'.early_back hacc (h.lt hold) hp) hcontrol
        · exact fun e he => absurd he List.not_mem_nil
      · rcases hobject hc with hold | ⟨-, rfl⟩
        · exact h.unreferenced (.of_reachable hserver) hst' hold ho
        · cases ho

/-- One connection takes a step, and the server with it. -/
theorem Consistent.advance {a : Session.Action} {session : Session.State} {b : Server.Action}
    {v : Server.State} {c : Nat} {o : Object} (h : Consistent s)
    (hserver : (Server.machine setup.workers).Reachable s.server) (hc : s.objects[c]? = some o)
    (hst : Server.Step s.server b v) (hb : b ≠ .accept true)
    (hself : (v.connections[c]? ≠ some .pooled → session.control = .outside) ∧
      (v.Admitted c → session.log.any Session.Event.succeeds = true) ∧
      (v.Early c → session.control = .outside → Untouched session))
    (hother : ∀ c', c' ≠ c → (v.connections[c']? = s.server.connections[c']?) ∧
      (v.Admitted c' → s.server.Admitted c')) :
    Consistent (s.advance c o a session v) := by
  have hlt : c < s.objects.length := (List.getElem?_eq_some_iff.1 hc).1
  have hobject : ∀ {c' : Nat} {o' : Object},
      (s.objects.set c { o with session := session })[c']? = some o' →
      c' = c ∧ o' = { o with session := session } ∨ c' ≠ c ∧ s.objects[c']? = some o' := by
    intro c' o' hc'
    by_cases heq : c' = c
    · subst heq
      rw [List.getElem?_set_self hlt] at hc'
      exact .inl ⟨rfl, (Option.some.inj hc').symm⟩
    · rw [List.getElem?_set_ne (Ne.symm heq)] at hc'
      exact .inr ⟨heq, hc'⟩
  refine ⟨?_, fun c' o' hc' hp => ?_, fun c' o' hc' hp => ?_, fun c' o' hc' hp hcontrol => ?_,
    fun c' o' hc' ho => ?_⟩
  · simp only [State.advance, List.length_set]
    exact h.length.trans (hst.length_eq (.of_reachable hserver) hb).symm
  · rcases hobject hc' with ⟨rfl, rfl⟩ | ⟨hne, hold⟩
    · exact hself.1 hp
    · exact h.idle c' o' hold (by rw [← (hother c' hne).1]; exact hp)
  · rcases hobject hc' with ⟨rfl, rfl⟩ | ⟨hne, hold⟩
    · exact hself.2.1 hp
    · exact h.admitted c' o' hold ((hother c' hne).2 hp)
  · rcases hobject hc' with ⟨rfl, rfl⟩ | ⟨hne, hold⟩
    · exact hself.2.2 hp hcontrol
    · exact h.untouched c' o' hold (hst.early_back (.of_reachable hserver) (h.lt hold) hp) hcontrol
  · rcases hobject hc' with ⟨rfl, rfl⟩ | ⟨hne, hold⟩
    · exact h.unreferenced (.of_reachable hserver) hst hc ho
    · exact h.unreferenced (.of_reachable hserver) hst hold ho

/-- `handshake` returns, and `handle_connection` goes on with the result. -/
theorem Consistent.handshake {outcome : HandshakeOutcome} {session : Session.State}
    {v : Server.State} {c : Nat} {o : Object} (h : Consistent s)
    (hserver : (Server.machine setup.workers).Reachable s.server)
    (howner : s.server.owner = .handshaking c) (hc : s.objects[c]? = some o)
    (hsession : Session.Step o.session (.handshake outcome) session)
    (hst : Server.Step s.server
      (.handshake (handshakeEnd (o.session.connection.handshake outcome).2)) v) :
    Consistent (s.advance c o (.handshake outcome) session v) := by
  have hacc := Server.Accounts.of_reachable hserver
  have hphase : s.server.connections[c]? = some .handshaking :=
    hacc.position c _ (by rw [howner]; rfl)
  cases hsession with
  | handshaken hcontrol =>
      have huntouched : Untouched { o.session with
          connection := (o.session.connection.handshake outcome).1
          log := o.session.log ++
            ((o.session.connection.handshake outcome).2.map Session.Event.handshaken).toList } := by
        intro e he
        cases List.mem_append.1 he with
        | inl hbefore => exact h.untouched c o hc (.inl hphase) hcontrol e hbefore
        | inr hresult => exact Session.mem_handshaken hresult
      have hnone : ¬ s.server.Admitted c := by
        rintro (hpooled | hsubmitting)
        · rw [hphase] at hpooled
          cases hpooled
        · rw [howner] at hsubmitting
          cases hsubmitting
      generalize (o.session.connection.handshake outcome).2 = result at hst huntouched ⊢
      have hothers : ∀ c', c' ≠ c → v.connections[c']? = s.server.connections[c']? := by
        intro c' hne
        rcases result with _ | _ | _ <;> cases hst
        all_goals
          rename_i hs
          cases howner.symm.trans hs
          first | rfl | exact List.getElem?_set_ne (Ne.symm hne)
      by_cases hsucceeded : handshakeEnd result = .succeeded
      · obtain rfl : result = some true := by
          rcases result with _ | _ | _ <;> first | rfl | cases hsucceeded
        refine h.advance hserver hc hst (by simp)
          ⟨fun _ => hcontrol, fun _ => ?_, fun _ _ => huntouched⟩
          fun c' hne => ⟨hothers c' hne, ?_⟩
        · simp [Session.Event.succeeds]
        · cases hst with
          | handshakeSucceeded hs =>
              cases howner.symm.trans hs
              rintro (hpooled | hsubmitting)
              · exact .inl hpooled
              · cases hsubmitting
                exact absurd rfl hne
      · have hback : ∀ {c' : Nat}, v.Admitted c' → s.server.Admitted c' :=
          fun hadmitted => hst.admitted_back hacc (by simpa using hsucceeded) hadmitted
        exact h.advance hserver hc hst (by simp)
          ⟨fun _ => hcontrol, fun hadmitted => absurd (hback hadmitted) hnone, fun _ _ => huntouched⟩
          fun c' hne => ⟨hothers c' hne, hback⟩

/-- A worker takes a step inside `connection->run`. -/
theorem Consistent.run {w c : Nat} {a : Session.Action} {session : Session.State}
    {v : Server.State} {o : Object} (h : Consistent s)
    (hserver : (Server.machine setup.workers).Reachable s.server)
    (hw : s.server.serving w = some c) (hpooled : s.server.connections[c]? = some .pooled)
    (hc : s.objects[c]? = some o) (hsession : Session.Step o.session a session)
    (hrun : (Server.machine setup.workers).run s.server (serverActions w a session) = some v) :
    Consistent (s.advance c o a session v) := by
  have hacc := Server.Accounts.of_reachable hserver
  have hlog : session.log.any Session.Event.succeeds = true :=
    succeeds_of_prefix (Session.log_prefix_step hsession) (h.admitted c o hc (.inl hpooled))
  rcases run_serverActions hrun with ⟨hcontrol, rfl⟩ | ⟨hcontrol, hst⟩
  · exact h.advance hserver hc (.routed hw hpooled) (by simp)
      ⟨fun hnot => absurd hpooled hnot, fun _ => hlog, fun _ hout => absurd hout hcontrol⟩
      fun _ _ => ⟨rfl, id⟩
  · obtain ⟨q, hhandshaking, hpool, hset⟩ := hst.endRun hw
    have hlate : ¬ v.Early c := by
      rw [Server.State.Early, hset,
        List.getElem?_set_self (List.getElem?_eq_some_iff.1 hpooled).1]
      exact fun hq => hq.elim (hhandshaking ∘ Option.some.inj) (hpool ∘ Option.some.inj)
    refine h.advance hserver hc hst (by simp)
      ⟨fun _ => hcontrol, fun _ => hlog, fun hearly => absurd hearly hlate⟩ fun c' hne => ⟨?_, ?_⟩
    · rw [hset, List.getElem?_set_ne (Ne.symm hne)]
    · exact fun hadmitted => hst.admitted_back hacc (by simp) hadmitted

/-- `~Connection` is executed. -/
theorem Consistent.destroy {c : Nat} {o : Object} (h : Consistent s)
    (hreferences : s.server.references c = false) (hc : s.objects[c]? = some o) :
    Consistent { s with
      objects := s.objects.set c
        { session := { o.session with connection := o.session.connection.close }
          destroyed := true }
      descriptors := s.descriptors ++ closeCalls o.session.connection } := by
  have hlt : c < s.objects.length := (List.getElem?_eq_some_iff.1 hc).1
  have hobject : ∀ {c' : Nat} {o' : Object},
      (s.objects.set c
        { session := { o.session with connection := o.session.connection.close }
          destroyed := true })[c']? = some o' →
      c' = c ∧ o'.session.control = o.session.control ∧ o'.session.log = o.session.log ∨
        s.objects[c']? = some o' := by
    intro c' o' hc'
    by_cases heq : c' = c
    · subst heq
      rw [List.getElem?_set_self hlt] at hc'
      cases hc'
      exact .inl ⟨rfl, rfl, rfl⟩
    · rw [List.getElem?_set_ne (Ne.symm heq)] at hc'
      exact .inr hc'
  refine ⟨by simp [h.length], fun c' o' hc' hp => ?_, fun c' o' hc' hp => ?_,
    fun c' o' hc' hp hcontrol => ?_, fun c' o' hc' ho => ?_⟩
  · rcases hobject hc' with ⟨rfl, hcontrol, -⟩ | hold
    · exact hcontrol.trans (h.idle c' o hc hp)
    · exact h.idle c' o' hold hp
  · rcases hobject hc' with ⟨rfl, -, hlog⟩ | hold
    · exact hlog ▸ h.admitted c' o hc hp
    · exact h.admitted c' o' hold hp
  · rcases hobject hc' with ⟨rfl, hsame, hlog⟩ | hold
    · rw [Untouched, hlog]
      exact h.untouched c' o hc hp (hsame ▸ hcontrol)
    · exact h.untouched c' o' hold hp hcontrol
  · rcases hobject hc' with ⟨rfl, -, -⟩ | hold
    · exact hreferences
    · exact h.destroyed c' o' hold ho

/-- There is no connection yet. -/
theorem objects_init (setup : Setup) {c : Nat} {o : Object} :
    (machine setup).init.objects[c]? ≠ some o := fun hc => nomatch hc

theorem Consistent.init (setup : Setup) : Consistent (machine setup).init where
  length := rfl
  idle _ _ hc := absurd hc (objects_init setup)
  admitted _ _ hc := absurd hc (objects_init setup)
  untouched _ _ hc := absurd hc (objects_init setup)
  destroyed _ _ hc := absurd hc (objects_init setup)

/-- A step keeps `Consistent`. -/
theorem Consistent.step {a : Action} (h : Consistent s)
    (hserver : (Server.machine setup.workers).Reachable s.server) (hst : Step setup s a t) :
    Consistent t := by
  cases hst with
  | server ha hstep => exact h.server_step hserver ha (.of_step hstep)
  | accepted _ _ hstep => exact h.accept hserver (.of_step hstep)
  | handshaken howner hc hsession hstep =>
      exact h.handshake hserver howner hc (.of_step hsession) (.of_step hstep)
  | ran hw hpooled hc _ hsession hrun => exact h.run hserver hw hpooled hc (.of_step hsession) hrun
  | destroyed hreferences hc _ => exact h.destroy hreferences hc

/-- Every reachable state has `Consistent`. -/
theorem Consistent.of_reachable (h : (machine setup).Reachable s) : Consistent s := by
  have hboth : (Server.machine setup.workers).Reachable s.server ∧ Consistent s := by
    refine h.invariant (I := fun s => (Server.machine setup.workers).Reachable s.server ∧ Consistent s)
      ⟨.init, .init setup⟩ fun s a t hs hst => ?_
    have hst := Step.of_step hst
    exact ⟨hs.1.reaches hst.server_reaches, hs.2.step hs.1 hst⟩
  exact hboth.2

/-! ## The sessions -/

/-- What `handle_connection` and its task do with a session: `run` is called
once, after a successful handshake, and the handler is the router. -/
def Lawful (setup : Setup) (session : Session.State) : Session.Action → Prop
  | .run => session.log.any Session.Event.succeeds = true ∧ Untouched session
  | .handle result =>
    ∃ request, session.control = .handling request ∧ result = setup.route request
  | _ => True

/-- A step of `connection->run` is a lawful one. -/
theorem Move.lawful {move : Move} {session session' : Session.State} {a : Session.Action}
    (hlog : session.log.any Session.Event.succeeds = true)
    (huntouched : session.control = .outside → Untouched session)
    (h : move.action setup session.control = some a) (hst : Session.Step session a session') :
    Lawful setup session a := by
  cases move with
  | enter =>
      cases h
      cases hst with
      | entered hcontrol => exact ⟨hlog, huntouched hcontrol⟩
  | handle =>
      simp only [Move.action] at h
      split at h
      · next request hcontrol =>
          cases h
          exact ⟨request, hcontrol, rfl⟩
      · cases h
  | loopTest | parse | receive | send | leave =>
      cases h
      trivial

/-- A step of the system leaves an object alone, or takes one lawful step of its
session. -/
theorem Step.object {a : Action} (h : (machine setup).Reachable s) (hst : Step setup s a t) {c : Nat}
    {o' : Object} (hc : t.objects[c]? = some o') :
    s.objects[c]? = some o' ∨
      (∃ fd, fd ≠ Socket.invalidHandle ∧ o'.session = { connection := setup.connection fd }) ∨
      ∃ o b, s.objects[c]? = some o ∧ Lawful setup o.session b ∧
        o.session.step b = some o'.session := by
  have hconsistent := Consistent.of_reachable h
  -- one slot is written
  have hset : ∀ {c' : Nat} {o : Object} {new : Object} {b : Session.Action},
      s.objects[c']? = some o → Lawful setup o.session b → o.session.step b = some new.session →
      (s.objects.set c' new)[c]? = some o' →
      s.objects[c]? = some o' ∨ ∃ o b, s.objects[c]? = some o ∧ Lawful setup o.session b ∧
        o.session.step b = some o'.session := by
    intro c' o new b hold hlawful hstep hc
    by_cases heq : c' = c
    · subst heq
      rw [List.getElem?_set_self (List.getElem?_eq_some_iff.1 hold).1] at hc
      cases hc
      exact .inr ⟨o, b, hold, hlawful, hstep⟩
    · rw [List.getElem?_set_ne heq] at hc
      exact .inl hc
  cases hst with
  | server => exact .inl hc
  | @accepted fd _ hfd _ _ =>
      rw [List.getElem?_append] at hc
      split at hc
      · exact .inl hc
      · rw [List.getElem?_singleton] at hc
        split at hc
        · cases hc
          exact .inr (.inl ⟨fd, hfd, rfl⟩)
        · cases hc
  | @handshaken outcome _ _ session _ _ hold hstep _ =>
      exact (hset (b := .handshake outcome) hold trivial hstep hc).imp_right .inr
  | ran hw hpooled hold ha hstep _ =>
      have hlawful := Move.lawful (hconsistent.admitted _ _ hold (.inl hpooled))
        (hconsistent.untouched _ _ hold (.inr hpooled)) ha (.of_step hstep)
      exact (hset hold hlawful hstep hc).imp_right .inr
  | @destroyed c' o hreferences hold _ =>
      -- nobody is inside `run`, so that the destructor is a call of `close`
      have hcontrol := hconsistent.idle c' o hold
        (not_pooled_of_unreferenced (.of_reachable (server_reachable h)) hreferences)
      refine (hset (b := .close) hold trivial ?_ hc).imp_right .inr
      simp [Session.State.step, hcontrol]

/-- **Rule**: what a new session satisfies and lawful steps preserve, the session
of every connection satisfies in every run. -/
theorem objects_invariant {P : Session.State → Prop}
    (hinit : ∀ fd, fd ≠ Socket.invalidHandle → P { connection := setup.connection fd })
    (hstep : ∀ session b session', P session → Lawful setup session b →
      session.step b = some session' → P session')
    (h : (machine setup).Reachable s) {c : Nat} {o : Object} (hc : s.objects[c]? = some o) :
    P o.session := by
  have hall : (machine setup).Reachable s ∧
      ∀ (c : Nat) (o : Object), s.objects[c]? = some o → P o.session := by
    refine h.invariant (I := fun s => (machine setup).Reachable s ∧
      ∀ (c : Nat) (o : Object), s.objects[c]? = some o → P o.session)
      ⟨.init, fun _ _ hc => absurd hc (objects_init setup)⟩ ?_
    intro s a t hs hst
    refine ⟨hs.1.step hst, fun c o' hc => ?_⟩
    rcases (Step.of_step hst).object hs.1 hc with hold | ⟨fd, hfd, hnew⟩ | ⟨o, b, hold, hlawful, hb⟩
    · exact hs.2 c o' hold
    · exact hnew ▸ hinit fd hfd
    · exact hstep _ _ _ (hs.2 c o hold) hlawful hb
  exact hall.2 c o hc

/-- **Every connection goes through a run of its session.** -/
theorem session_reachable (h : (machine setup).Reachable s) {c : Nat} {o : Object}
    (hc : s.objects[c]? = some o) :
    ∃ fd, fd ≠ Socket.invalidHandle ∧
      (Session.machine (setup.connection fd)).Reachable o.session := by
  refine objects_invariant (P := fun session => ∃ fd, fd ≠ Socket.invalidHandle ∧
    (Session.machine (setup.connection fd)).Reachable session) ?_ ?_ h hc
  · exact fun fd hfd => ⟨fd, hfd, .init⟩
  · rintro session b session' ⟨fd, hfd, hreach⟩ - hstep
    exact ⟨fd, hfd, hreach.step hstep⟩

end HttpsServer.System
