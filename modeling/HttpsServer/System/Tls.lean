import HttpsServer.Server.Placement
import HttpsServer.System.Projection
import HttpsServer.Tls.OneContext

/-!
# HttpsServer.System.Tls

The OpenSSL objects of a server with TLS.

The server, every `Connection` and every `TlsConnection` has a `shared_ptr` to
one `TlsContext`; a `Connection` makes its `TlsConnection` in `handshake`, on the
thread of the owner, and closes it at the end of `run`, on a worker, or in its
destructor.  What they call of the two classes is a run of the machine of
`HttpsServer.Tls` (`simulates`), so that the OpenSSL objects of a server are used
while they exist and freed once, and those that are left belong to connections
that are left (`tls_objects_kept`).
-/

namespace HttpsServer.System

/-! ## Calls of the TLS classes -/

/-- The `TlsConnection` of a connection, as the other machine has it. -/
def Object.tlsSession? (o : Object) : Option Tls.View :=
  o.session.connection.tlsConnection.map fun tls => (0, tls, !o.destroyed)

/-- Which `TlsConnection` connection `c` has, or will have. -/
def State.tlsIndex (s : State) (c : Nat) : Nat :=
  ((s.objects.take c).filterMap Object.tlsSession?).length

/-- How the constructor of `TlsConnection` and `SSL_accept` end.  A constructor
that throws has made an `SSL`, or it has not. -/
def handshakeCalls (attached : Bool) (i : Nat) : HandshakeOutcome → List Tls.Action
  | .constructorThrew => [.makeSession (some 0) (if attached then .notAttached else .noSession)]
  | .accepted => [.makeSession (some 0) .made, .handshake i true]
  | .refused => [.makeSession (some 0) .made, .handshake i false]

/-- The bytes `send_response` is about to write. -/
def payload : Session.Control → Bytes
  | .sending _ response => response.serialize
  | _ => []

/-- `read` and `write` go to the `TlsConnection`. -/
def usesTls (c : Connection) : Bool := c.socket.valid && c.tlsEnabled && c.tlsConnection.isSome

/-- What a step of a connection calls of its `TlsConnection`, which is the `i`th
one. -/
def tlsCalls (attached : Bool) (i : Nat) (session : Session.State) :
    Session.Action → List Tls.Action
  | .handshake outcome =>
    if session.connection.tlsEnabled && session.connection.tlsContext then
      handshakeCalls attached i outcome
    else []
  | .receive _ => if usesTls session.connection then [.read i Session.State.bufferSize] else []
  | .send _ => if usesTls session.connection then [.write i (payload session.control)] else []
  | .close | .leave => if session.connection.tlsConnection.isSome then [.close i] else []
  | .run | .loopTest | .parse | .handle _ => []

/-- What a step calls of the two classes, where there is a `TlsContext`.  Where
the constructor of a `TlsConnection` throws, `attached` says whether it has got as
far as `SSL_set_fd`. -/
def State.tlsCalls (setup : Setup) (attached : Nat → Bool) (s : State) (a : Action) :
    List Tls.Action :=
  if setup.tlsEnabled then
    match a with
    | .server a => if s.server.destroys a = some .tlsContext then [.drop 0] else []
    | .accept _ => [.share 0]
    | .handshake outcome =>
      match s.server.owner with
      | .handshaking c =>
        (s.objects[c]?.map fun o =>
          System.tlsCalls (attached c) (s.tlsIndex c) o.session (.handshake outcome)).getD []
      | _ => []
    | .run w move =>
      (do
        let c ← s.server.serving w
        let o ← s.objects[c]?
        let a ← move.action setup o.session.control
        some (System.tlsCalls (attached c) (s.tlsIndex c) o.session a)).getD []
    | .destroy c =>
      (s.objects[c]?.map fun o =>
        (if o.session.connection.tlsConnection.isSome then
          [.close (s.tlsIndex c), .destroy (s.tlsIndex c)] else []) ++ [.drop 0]).getD []
  else []

/-! ## The two machines -/


/-- The `shared_ptr`s outside of `TlsConnection`s: that of the server, and those
of its connections. -/
def State.tlsUsers (s : State) : Nat :=
  (if s.server.alive .tlsContext then 1 else 0) + s.objects.countP fun o => !o.destroyed

/-- The states belong together. -/
def Mirrors (s : State) (t : Tls.State) : Prop :=
  Tls.OneContext s.tlsUsers (s.objects.filterMap Object.tlsSession?) t

variable {setup : Setup} {s s' : State} {t t' : Tls.State}

/-! ## A handshake -/

/-- A connection whose handshake is under way has no TLS session yet. -/
def Fresh (s : State) : Prop :=
  ∀ (c : Nat) (o : Object), s.server.owner = .handshaking c → s.objects[c]? = some o →
    o.session.connection.tlsConnection = none

theorem Fresh.step {a : Action} (h : Fresh s) (hreach : (machine setup).Reachable s)
    (hst : Step setup s a s') : Fresh s' := by
  have hposition : ∀ {c : Nat}, s.server.owner = .handshaking c →
      s.server.connections[c]? = some .handshaking := fun howner =>
    (Server.Accounts.of_reachable (server_reachable hreach)).position _ _ (by rw [howner]; rfl)
  intro c o howner hc
  cases hst with
  | server ha hb =>
      refine h c o ((Server.Step.of_step hb).handshaking_back ?_ howner) hc
      rintro rfl
      cases ha
  | accepted _ _ hb =>
      cases Server.Step.of_step hb with
      | accepted =>
          cases howner
          rcases getElem?_append_slot hc with hold | ⟨-, rfl⟩
          · have hlt := (List.getElem?_eq_some_iff.1 hold).1
            rw [(Consistent.of_reachable hreach).length] at hlt
            exact absurd hlt (Nat.lt_irrefl _)
          · rfl
  | handshaken hs _ _ hb =>
      -- the owner goes on
      generalize handshakeEnd _ = result at hb
      cases Server.Step.of_step hb <;> cases howner
  | @ran w c' _ _ _ _ _ _ hpooled hold _ _ hrun =>
      have hback : s.server.owner = .handshaking c := by
        rcases run_serverActions hrun with ⟨-, hsame⟩ | ⟨-, hend⟩
        · exact hsame ▸ howner
        · exact hend.handshaking_back (by simp) howner
      have hne : c' ≠ c := by
        rintro rfl
        cases hpooled.symm.trans (hposition hback)
      rw [State.advance, List.getElem?_set_ne hne] at hc
      exact h c o hback hc
  | @destroyed c' _ hreferences _ _ =>
      have hne : c' ≠ c := by
        rintro rfl
        have hkept : s.server.references c' = true :=
          Server.State.references_iff.2 (.inl (by rw [Server.State.frame, howner]))
        rw [hreferences] at hkept
        cases hkept
      rw [List.getElem?_set_ne hne] at hc
      exact h c o howner hc

theorem Fresh.of_reachable (h : (machine setup).Reachable s) : Fresh s := by
  have hboth : (machine setup).Reachable s ∧ Fresh s := by
    refine h.invariant (I := fun s => (machine setup).Reachable s ∧ Fresh s)
      ⟨.init, fun c o _ hc => absurd hc (objects_init setup)⟩ ?_
    exact fun s a t hs hst => ⟨hs.1.step hst, hs.2.step hs.1 (.of_step hst)⟩
  exact hboth.2

/-! ## The simulation -/

/-- The `TlsConnection` after a step. -/
def tlsAfter (c : Connection) : Session.Action → Option TlsConnection
  | .handshake outcome => (c.handshake outcome).1.tlsConnection
  | .close | .leave => c.tlsConnection.map TlsConnection.close
  | .run | .loopTest | .parse | .receive _ | .handle _ | .send _ => c.tlsConnection

theorem tlsConnection_step {session session' : Session.State} {a : Session.Action}
    (hst : Session.Step session a session') :
    session'.connection.tlsConnection = tlsAfter session.connection a := by
  cases hst <;> rfl

/-- The place of a connection's `TlsConnection`. -/
theorem tlsIndex_slot {c : Nat} {o : Object} {v : Tls.View} (hc : s.objects[c]? = some o)
    (hv : o.tlsSession? = some v) :
    (s.objects.filterMap Object.tlsSession?)[s.tlsIndex c]? = some v ∧
      ∀ (new : Object) (w : Tls.View), new.tlsSession? = some w →
        (s.objects.set c new).filterMap Object.tlsSession? =
          (s.objects.filterMap Object.tlsSession?).set (s.tlsIndex c) w :=
  filterMap_slot Object.tlsSession? hc hv

/-- A step of a connection that has its `TlsConnection`, or will never have
one. -/
theorem calls_simulated {users c : Nat} {o : Object} {a : Session.Action} {session : Session.State}
    {attached : Bool} (h : Tls.OneContext users (s.objects.filterMap Object.tlsSession?) t)
    (hc : s.objects[c]? = some o) (hlive : o.destroyed = false)
    (hst : Session.Step o.session a session) (ha : ∀ outcome, a ≠ .handshake outcome) :
    ∃ t', Tls.machine.run t (tlsCalls attached (s.tlsIndex c) o.session a) = some t' ∧
      Tls.OneContext users
        ((s.objects.set c { o with session := session }).filterMap Object.tlsSession?) t' := by
  have htls := tlsConnection_step hst
  have hkeep : session.connection.tlsConnection = o.session.connection.tlsConnection →
      (s.objects.set c { o with session := session }).filterMap Object.tlsSession? =
        s.objects.filterMap Object.tlsSession? := fun hsame =>
    filterMap_set_of_eq _ _ hc (by rw [Object.tlsSession?, Object.tlsSession?, hsame])
  have hone : ∀ {b : Tls.Action} {v : Tls.State}, t.step b = some v →
      Tls.machine.run t [b] = some v := fun hb => Machine.run_cons_eq_some.2 ⟨_, hb, rfl⟩
  cases htlsConnection : o.session.connection.tlsConnection with
  | none =>
      have hnone : tlsCalls attached (s.tlsIndex c) o.session a = [] := by
        cases a with
        | handshake outcome => exact absurd rfl (ha outcome)
        | _ => simp [tlsCalls, usesTls, htlsConnection]
      have hstays : session.connection.tlsConnection = none := by
        rw [htls]
        cases a with
        | handshake outcome => exact absurd rfl (ha outcome)
        | _ => simp [tlsAfter, htlsConnection]
      rw [hnone, hkeep (hstays.trans htlsConnection.symm)]
      exact ⟨t, rfl, h⟩
  | some tls =>
      have hview : o.tlsSession? = some (0, tls, true) := by
        simp [Object.tlsSession?, htlsConnection, hlive]
      obtain ⟨hi, hset⟩ := tlsIndex_slot hc hview
      have hclose : session.connection.tlsConnection = some tls.close →
          ∃ t', Tls.machine.run t [.close (s.tlsIndex c)] = some t' ∧
            Tls.OneContext users
              ((s.objects.set c { o with session := session }).filterMap Object.tlsSession?) t' := by
        intro hclosed
        obtain ⟨t', ht', hcloses⟩ := h.close hi
        refine ⟨t', hone ht', ?_⟩
        rw [hset _ (0, tls.close, true) (by simp [Object.tlsSession?, hclosed, hlive])]
        exact hcloses
      cases a with
      | handshake outcome => exact absurd rfl (ha outcome)
      | close | leave =>
          rw [tlsCalls, htlsConnection]
          exact hclose (by rw [htls, tlsAfter, htlsConnection]; rfl)
      | run | loopTest | parse | handle =>
          rw [hkeep htls]
          exact ⟨t, rfl, h⟩
      | receive answer =>
          rw [hkeep htls, tlsCalls]
          split
          · obtain ⟨t', ht', hread⟩ := h.read hi Session.State.bufferSize
            exact ⟨t', hone ht', hread⟩
          · exact ⟨t, rfl, h⟩
      | send answer =>
          rw [hkeep htls, tlsCalls]
          split
          · obtain ⟨t', ht', hwrite⟩ := h.write hi (payload o.session.control)
            exact ⟨t', hone ht', hwrite⟩
          · exact ⟨t, rfl, h⟩

/-- The last connection makes its `TlsConnection`. -/
theorem handshake_simulated {users c : Nat} {o : Object} {outcome : HandshakeOutcome}
    {session : Session.State} {attached : Bool}
    (h : Tls.OneContext users (s.objects.filterMap Object.tlsSession?) t) (hpos : 0 < users)
    (hc : s.objects[c]? = some o) (hlast : c + 1 = s.objects.length) (hlive : o.destroyed = false)
    (hfresh : o.session.connection.tlsConnection = none)
    (hst : Session.Step o.session (.handshake outcome) session) :
    ∃ t', Tls.machine.run t
        (tlsCalls attached (s.tlsIndex c) o.session (.handshake outcome)) = some t' ∧
      Tls.OneContext users
        ((s.objects.set c { o with session := session }).filterMap Object.tlsSession?) t' := by
  obtain ⟨hlt, rfl⟩ := List.getElem?_eq_some_iff.1 hc
  have hset : ∀ new : Object, s.objects.set c new = s.objects.take c ++ [new] := fun new => by
    rw [List.set_eq_take_append_cons_drop, if_pos hlt, List.drop_eq_nil_of_le (by omega)]
  have hnone : s.objects[c].tlsSession? = none := by rw [Object.tlsSession?, hfresh]; rfl
  have hviews : s.objects.filterMap Object.tlsSession? =
      (s.objects.take c).filterMap Object.tlsSession? := by
    calc s.objects.filterMap Object.tlsSession?
        = (s.objects.take (c + 1)).filterMap Object.tlsSession? := by rw [hlast, List.take_length]
      _ = (s.objects.take c).filterMap Object.tlsSession? := by
          rw [← List.take_append_getElem hlt, List.filterMap_append, List.filterMap_cons_none hnone,
            List.filterMap_nil, List.append_nil]
  have htls := tlsConnection_step hst
  rw [hviews] at h
  rw [hset, List.filterMap_append]
  -- the connection goes without
  have hwithout : session.connection.tlsConnection = none →
      [({ s.objects[c] with session := session } : Object)].filterMap Object.tlsSession? = [] := by
    intro hsession
    rw [List.filterMap_cons_none (by rw [Object.tlsSession?, hsession]; rfl), List.filterMap_nil]
  -- the session is made, and the handshake ends
  have hmade : ∀ accepted : Bool,
      session.connection.tlsConnection = some (TlsConnection.make.handshake accepted).1 →
      ∃ t', Tls.machine.run t [.makeSession (some 0) .made, .handshake (s.tlsIndex c) accepted] =
          some t' ∧
        Tls.OneContext users ((s.objects.take c).filterMap Object.tlsSession? ++
          [({ s.objects[c] with session := session } : Object)].filterMap Object.tlsSession?) t' := by
    intro accepted hsession
    obtain ⟨u, hu, hnew⟩ := h.makeSession hpos
    have hi : ((s.objects.take c).filterMap Object.tlsSession? ++
        [(0, TlsConnection.make, true)])[s.tlsIndex c]? = some (0, .make, true) := by
      rw [State.tlsIndex, List.getElem?_concat_length]
    obtain ⟨t', ht', hend⟩ := hnew.handshake hi accepted
    refine ⟨t', Machine.run_cons_eq_some.2 ⟨u, hu, Machine.run_cons_eq_some.2 ⟨t', ht', rfl⟩⟩, ?_⟩
    have hview : ({ s.objects[c] with session := session } : Object).tlsSession? =
        some (0, (TlsConnection.make.handshake accepted).1, true) := by
      rw [Object.tlsSession?, hsession, hlive]
      rfl
    rw [List.filterMap_cons_some hview, List.filterMap_nil]
    rw [State.tlsIndex, List.set_append_right _ _ (Nat.le_refl _), Nat.sub_self] at hend
    exact hend
  cases hactive : s.objects[c].session.connection.tlsEnabled &&
      s.objects[c].session.connection.tlsContext with
  | true =>
      obtain ⟨henabled, hcontext⟩ := Bool.and_eq_true_iff.1 hactive
      rw [tlsCalls, hactive, if_pos rfl]
      cases outcome with
      | accepted => exact hmade true (by simp [htls, tlsAfter, Connection.handshake, henabled, hcontext])
      | refused => exact hmade false (by simp [htls, tlsAfter, Connection.handshake, henabled, hcontext])
      | constructorThrew =>
          have hthrows : (if attached then .notAttached else .noSession) ≠ Tls.SessionOutcome.made := by
            split <;> simp
          obtain ⟨t', ht', hsame⟩ := h.makeSession_threw hpos hthrows
          refine ⟨t', Machine.run_cons_eq_some.2 ⟨t', ht', rfl⟩, ?_⟩
          rw [hwithout ?_, List.append_nil]
          · exact hsame
          · simp [htls, tlsAfter, Connection.handshake, henabled, hcontext, hfresh]
  | false =>
      rw [tlsCalls, hactive, if_neg Bool.false_ne_true, hwithout ?_, List.append_nil]
      · exact ⟨t, rfl, h⟩
      · rcases Bool.and_eq_false_iff.1 hactive with hoff | hoff <;>
          simp [htls, tlsAfter, Connection.handshake, hoff, hfresh]

theorem tlsUsers_pos_iff :
    0 < s.tlsUsers ↔ (s.server.alive .tlsContext || s.objects.any fun o => !o.destroyed) = true := by
  rw [State.tlsUsers, Bool.or_eq_true, List.any_eq_true, ← List.countP_pos_iff]
  split
  · next halive => simp only [halive, true_or, Nat.add_pos_left Nat.one_pos]
  · next hgone => simp only [hgone, false_or, Nat.zero_add, Bool.false_eq_true]

/-- As long as the server has its `tls_context_`, its connections can use it. -/
theorem tlsUsers_pos (h : s.server.alive .tlsContext = true) : 0 < s.tlsUsers :=
  tlsUsers_pos_iff.2 (by rw [h, Bool.true_or])

/-- A step in which no `shared_ptr` comes or goes. -/
theorem tlsUsers_advance {c : Nat} {o : Object} {a : Session.Action} {session : Session.State}
    {v : Server.State} (hc : s.objects[c]? = some o)
    (halive : v.alive .tlsContext = s.server.alive .tlsContext) :
    (s.advance c o a session v).tlsUsers = s.tlsUsers := by
  have hcount := countP_set_slot (fun o : Object => !o.destroyed) { o with session := session } hc
  rw [State.tlsUsers, State.tlsUsers, State.advance, halive]
  exact congrArg _ (Nat.add_right_cancel hcount)

/-- **Simulation**: what a server with TLS calls of the two classes is a use of
them. -/
theorem simulates (htls : setup.tlsEnabled = true) (attached : Nat → Bool) :
    Tls.machine.Simulates (machine setup) (State.tlsCalls setup attached)
      fun s t => (machine setup).Reachable s ∧ Mirrors s t := by
  rintro s t a s' ⟨hreach, h⟩ hstep
  have hst := Step.of_step hstep
  have hserver := server_reachable hreach
  have hplaced := Server.Placed.of_reachable hserver
  have hconsistent := Consistent.of_reachable hreach
  have halive : ∀ {b : Server.Action} {v : Server.State}, Server.Step s.server b v →
      v.alive .tlsContext =
        (s.server.alive .tlsContext && decide (s.server.destroys b ≠ some .tlsContext)) :=
    fun hb => hb.alive_eq hplaced (by simp)
  -- a connection that is kept has not been destroyed
  have hlive : ∀ {c : Nat} {o : Object}, s.objects[c]? = some o → s.server.references c = true →
      o.destroyed = false := by
    intro c o hc hreferences
    refine Bool.eq_false_iff.2 fun hdestroyed => ?_
    rw [hconsistent.destroyed c o hc hdestroyed] at hreferences
    cases hreferences
  suffices hsim : ∃ t', Tls.machine.run t (s.tlsCalls setup attached a) = some t' ∧ Mirrors s' t' by
    obtain ⟨t', ht', hmirrors⟩ := hsim
    exact ⟨t', ht', hreach.step hstep, hmirrors⟩
  cases hst with
  | @server b v hinternal hb =>
      have hgone := halive (.of_step hb)
      rw [State.tlsCalls, if_pos htls]
      split
      · next hdestroys =>
        have hbefore := Server.State.alive_of_destroys hdestroys
        have husers : s.tlsUsers = State.tlsUsers { s with server := v } + 1 := by
          rw [State.tlsUsers, State.tlsUsers, hgone, hbefore, hdestroys]
          simp [Nat.add_comm]
        rw [Mirrors, husers] at h
        obtain ⟨t', ht', hdropped⟩ := h.drop
        exact ⟨t', Machine.run_cons_eq_some.2 ⟨t', ht', rfl⟩, hdropped⟩
      · next hdestroys =>
        refine ⟨t, rfl, ?_⟩
        have husers : State.tlsUsers { s with server := v } = s.tlsUsers := by
          rw [State.tlsUsers, State.tlsUsers, hgone, decide_eq_true hdestroys, Bool.and_true]
        rw [Mirrors, husers]
        exact h
  | @accepted fd v _ _ hb =>
      have hsame := halive (.of_step hb)
      have hbefore : s.server.alive .tlsContext = true := by
        cases Server.Step.of_step hb with
        | accepted howner => simp [Server.State.alive, howner]
      obtain ⟨t', ht', hshared⟩ := h.share (tlsUsers_pos hbefore)
      rw [State.tlsCalls, if_pos htls]
      refine ⟨t', Machine.run_cons_eq_some.2 ⟨t', ht', rfl⟩, ?_⟩
      rw [Mirrors, State.tlsUsers, hsame]
      simp only [List.filterMap_append, List.countP_append]
      simpa [State.tlsUsers, Server.State.destroys, Object.tlsSession?, Setup.connection,
        Connection.make, Nat.add_assoc] using hshared
  | @handshaken outcome c o session v howner hc hsession hb =>
      have hsame := halive (.of_step hb)
      have hbefore : s.server.alive .tlsContext = true := by simp [Server.State.alive, howner]
      have hlast : c + 1 = s.objects.length := by
        rw [hconsistent.length]
        exact Server.Newest.of_reachable hserver c (by rw [Server.State.frame, howner])
      have hkept : s.server.references c = true :=
        Server.State.references_iff.2 (.inl (by rw [Server.State.frame, howner]))
      have hcalls : s.tlsCalls setup attached (.handshake outcome) =
          tlsCalls (attached c) (s.tlsIndex c) o.session (.handshake outcome) := by
        simp [State.tlsCalls, htls, howner, hc]
      unfold Mirrors
      rw [hcalls, tlsUsers_advance hc (by rw [hsame]; simp [Server.State.destroys])]
      exact handshake_simulated h (tlsUsers_pos hbefore) hc hlast (hlive hc hkept)
        (Fresh.of_reachable hreach c o howner hc) (.of_step hsession)
  | @ran w c move o a session v hw hpooled hc ha hsession hrun =>
      have hsame : v.alive .tlsContext = s.server.alive .tlsContext := by
        rcases run_serverActions hrun with ⟨-, rfl⟩ | ⟨-, hend⟩
        · rfl
        · rw [halive hend]
          simp [Server.State.destroys]
      have hkept : s.server.references c = true :=
        Server.State.references_iff.2 (.inr (Server.State.mem_jobs_of_serving hw))
      have hcalls : s.tlsCalls setup attached (.run w move) =
          tlsCalls (attached c) (s.tlsIndex c) o.session a := by
        simp [State.tlsCalls, htls, hw, hc, ha]
      unfold Mirrors
      rw [hcalls, tlsUsers_advance hc hsame]
      refine calls_simulated h hc (hlive hc hkept) (.of_step hsession) fun outcome => ?_
      rintro rfl
      cases move <;> simp [Move.action] at ha
      split at ha <;> simp at ha
  | @destroyed c o hreferences hc hdestroyed =>
      let gone : Object := { session := { o.session with connection := o.session.connection.close }
                             destroyed := true }
      have hcount := countP_set_slot (fun o : Object => !o.destroyed) gone hc
      have husers : s.tlsUsers = (if s.server.alive .tlsContext then 1 else 0) +
          (s.objects.set c gone).countP (fun o => !o.destroyed) + 1 := by
        simp only [hdestroyed, Bool.not_false, if_true] at hcount
        rw [State.tlsUsers, Nat.add_assoc, hcount]
        rfl
      rw [Mirrors, husers] at h
      have hcalls : s.tlsCalls setup attached (.destroy c) =
          (if o.session.connection.tlsConnection.isSome then
            [.close (s.tlsIndex c), .destroy (s.tlsIndex c)] else []) ++ [.drop 0] := by
        simp [State.tlsCalls, htls, hc]
      rw [hcalls]
      cases hsession : o.session.connection.tlsConnection with
      | none =>
          obtain ⟨t', ht', hdropped⟩ := h.drop
          refine ⟨t', Machine.run_cons_eq_some.2 ⟨t', ht', rfl⟩, ?_⟩
          have hviews : (s.objects.set c gone).filterMap Object.tlsSession? =
              s.objects.filterMap Object.tlsSession? :=
            filterMap_set_of_eq _ _ hc (by simp [gone, Object.tlsSession?, Connection.close, hsession])
          unfold Mirrors
          rw [hviews]
          exact hdropped
      | some tls =>
          have hview : o.tlsSession? = some (0, tls, true) := by
            simp [Object.tlsSession?, hsession, hdestroyed]
          obtain ⟨hi, hset⟩ := tlsIndex_slot hc hview
          obtain ⟨u, hu, hclosed⟩ := h.close hi
          have hi' : ((s.objects.filterMap Object.tlsSession?).set (s.tlsIndex c)
              (0, tls.close, true))[s.tlsIndex c]? = some (0, tls.close, true) :=
            List.getElem?_set_self (List.getElem?_eq_some_iff.1 hi).1
          obtain ⟨v, hv, hdestroyed⟩ := hclosed.destroy hi'
          obtain ⟨t', ht', hdropped⟩ := hdestroyed.drop
          refine ⟨t', ?_, ?_⟩
          · exact Machine.run_cons_eq_some.2 ⟨u, hu, Machine.run_cons_eq_some.2 ⟨v, hv,
              Machine.run_cons_eq_some.2 ⟨t', ht', rfl⟩⟩⟩
          · have hviews := hset gone (0, tls.close, false)
              (by simp [gone, Object.tlsSession?, Connection.close, hsession])
            rw [List.set_set] at hdropped
            unfold Mirrors
            rw [hviews]
            exact hdropped

/-! ## What is left -/

/-- The connection has an `SSL`. -/
def Object.hasSsl (o : Object) : Bool := o.session.connection.tlsConnection.any TlsConnection.ssl

/-- The `SSL` objects that have not been freed, one for each connection that has
one. -/
theorem Mirrors.ssls (h : Mirrors s t) :
    ∃ held, t.ssls.Keeps held ∧ held.length = s.objects.countP Object.hasSsl := by
  refine ⟨_, h.sound.inv.ssls, ?_⟩
  calc (t.sessions.filterMap Tls.Session.ssl?).length
      = t.sessions.countP ((fun v : Tls.View => v.2.1.ssl) ∘ Tls.Session.view) := by
        rw [List.length_filterMap_eq_countP]
        refine List.countP_congr fun session _ => ?_
        simp [Tls.Session.ssl?, Tls.Session.view]
    _ = (s.objects.filterMap Object.tlsSession?).countP fun v => v.2.1.ssl := by
        rw [← h.sessions, List.countP_map]
    _ = s.objects.countP Object.hasSsl := by
        rw [List.countP_filterMap]
        refine List.countP_congr fun o _ => ?_
        rw [Object.hasSsl, Object.tlsSession?]
        cases o.session.connection.tlsConnection <;> simp

/-- A connection that has been destroyed has none. -/
theorem Mirrors.destroyed (h : Mirrors s t) {o : Object} (ho : o ∈ s.objects)
    (hdestroyed : o.destroyed = true) : o.hasSsl = false := by
  rw [Object.hasSsl]
  cases htls : o.session.connection.tlsConnection with
  | none => rfl
  | some tls =>
      have hview : (0, tls, false) ∈ s.objects.filterMap Object.tlsSession? :=
        List.mem_filterMap.2 ⟨o, ho, by simp [Object.tlsSession?, htls, hdestroyed]⟩
      rw [← h.sessions, List.mem_map] at hview
      obtain ⟨session, hsession, heq⟩ := hview
      simp only [Tls.Session.view, Prod.mk.injEq] at heq
      obtain ⟨-, rfl, hgone⟩ := heq
      exact h.sound.inv.closed session hsession hgone

/-- The `SSL_CTX` lives as long as somebody has the context. -/
theorem Mirrors.sslContexts (h : Mirrors s t) :
    t.sslContexts.Keeps (if s.server.alive .tlsContext ||
      s.objects.any (fun o => !o.destroyed) then [0] else []) := by
  have hkeeps := h.sound.inv.sslContexts
  rw [h.abandoned, List.append_nil] at hkeeps
  split
  · next hkept =>
    rwa [h.handle (tlsUsers_pos_iff.2 hkept)] at hkeeps
  · next hgone =>
    have hzero : ¬ 0 < s.tlsUsers := fun hpos => hgone (tlsUsers_pos_iff.1 hpos)
    obtain ⟨handle, hhandle, hcontexts⟩ := h.contexts
    -- every `TlsConnection` has been destroyed with its connection
    have hnobody : t.sessions.countP (Tls.Session.owns 0) = 0 := by
      refine List.countP_eq_zero.2 fun session hmem howns => ?_
      have hview : session.view ∈ s.objects.filterMap Object.tlsSession? :=
        h.sessions ▸ List.mem_map_of_mem hmem
      obtain ⟨o, ho, heq⟩ := List.mem_filterMap.1 hview
      obtain ⟨tls, -, heq⟩ := Option.map_eq_some_iff.1 heq
      have halive : (!o.destroyed) = session.alive := congrArg (fun v : Tls.View => v.2.2) heq
      refine hgone (Bool.or_eq_true_iff.2 (.inr (List.any_eq_true.2 ⟨o, ho, ?_⟩)))
      rw [halive]
      exact (Bool.and_eq_true_iff.1 howns).1
    have hnone : handle = none := by
      refine hhandle.resolve_right fun hsome => ?_
      subst hsome
      have hk : t.contexts[(0 : Nat)]? = some { handle := some 0, users := s.tlsUsers } := by
        rw [hcontexts]
        rfl
      have hswept := h.sound.swept 0 _ not_false hk rfl
      rw [Tls.useCount_of_getElem? hk, hnobody] at hswept
      exact hzero hswept
    rw [hcontexts, hnone] at hkeeps
    exact hkeeps

/-- **The OpenSSL objects of a server are used while they exist and freed once,
and those that are left belong to what is left of the server.**  What a run calls
of `TlsContext` and `TlsConnection` is a use of the two classes in which no
object is misused; the `SSL` objects not freed are as many as the connections that
have one, and no destroyed connection has one; and the `SSL_CTX` lives as long as
the server's member or a connection. -/
theorem tls_objects_kept (htls : setup.tlsEnabled = true) (attached : Nat → Bool)
    {as : List Action} (h : (machine setup).run (machine setup).init as = some s) :
    ∃ t, Tls.machine.run {}
        (.makeContext .made ::
          (machine setup).emitted (State.tlsCalls setup attached) (machine setup).init as) = some t ∧
      (∃ held, t.ssls.Keeps held ∧ held.length = s.objects.countP Object.hasSsl) ∧
      (∀ o ∈ s.objects, o.destroyed = true → o.hasSsl = false) ∧
      t.sslContexts.Keeps (if s.server.alive .tlsContext ||
        s.objects.any (fun o => !o.destroyed) then [0] else []) := by
  obtain ⟨u, hu⟩ : ∃ u, Tls.machine.run {} [.makeContext .made] = some u := ⟨_, rfl⟩
  have hinit : (machine setup).Reachable (machine setup).init ∧ Mirrors (machine setup).init u :=
    ⟨.init, Tls.OneContext.init hu⟩
  obtain ⟨t, ht, -, hmirrors⟩ := (simulates htls attached).run h hinit
  refine ⟨t, Machine.run_append_eq_some.2 ⟨u, hu, ht⟩, hmirrors.ssls,
    fun o ho hdestroyed => hmirrors.destroyed ho hdestroyed, hmirrors.sslContexts⟩

theorem tls_objects_kept_greeted :
    ∃ s o, (machine greeter).run (machine greeter).init greetedRun = some s ∧
      s.objects[(0 : Nat)]? = some o ∧ ∃ t, Tls.machine.run {}
        (.makeContext .made ::
          (machine greeter).emitted (State.tlsCalls greeter fun _ => true) (machine greeter).init
            greetedRun) = some t ∧
        ∃ held, t.ssls.Keeps held ∧ held.length = s.objects.countP Object.hasSsl := by
  obtain ⟨s, o, hs, ho, -⟩ := exists_greeted
  have htls : greeter.tlsEnabled = true := rfl
  obtain ⟨t, ht, hssls, -⟩ := tls_objects_kept htls (fun _ => true) hs
  exact ⟨s, o, hs, ho, t, ht, hssls⟩

end HttpsServer.System
