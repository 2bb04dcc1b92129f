import HttpsServer.Connection.Buffer

/-!
# HttpsServer.Connection.Confidentiality

What a connection with a TLS context sends in the clear.

`read` and `write` take the TLS session if there is one and the bare socket if
there is none, and `run` does not ask whether the handshake has succeeded:
`handshake_complete_` is set and never read.  So nothing goes out in the clear
and no request is handled before its time as long as `run` is called after a
successful handshake only, or on a connection that is closed
(`confidential_of_guarded`).
-/

namespace HttpsServer

/-! ## The layer that is called -/

theorem TlsConnection.channel_read (t : TlsConnection) (size : Nat) (answer : RecvAnswer) :
    (t.read size answer).channel = some .tls := by
  unfold TlsConnection.read
  split
  · rfl
  · cases answer with
    | data available =>
        dsimp only
        split <;> rfl
    | wouldBlock | failed => rfl

theorem TlsConnection.channel_write (t : TlsConnection) (data : Bytes) (answer : SendAnswer) :
    (t.write data answer).channel = some .tls := by
  unfold TlsConnection.write
  split
  · rfl
  · dsimp only
    split <;> rfl

namespace Connection

/-- `handshake` where there is a TLS context. -/
theorem handshake_of_enabled {c : Connection} (henabled : c.tlsEnabled = true)
    (hcontext : c.tlsContext = true) (outcome : HandshakeOutcome) :
    c.handshake outcome =
      match outcome with
      | .constructorThrew => (c, none)
      | .accepted =>
        ({ c with
            tlsConnection := some { TlsConnection.make with handshakeComplete := true }
            handshakeComplete := true }, some true)
      | .refused =>
        ({ c with tlsConnection := some TlsConnection.make, handshakeComplete := false },
          some false) := by
  unfold handshake
  rw [henabled, hcontext]
  cases outcome <;> rfl

/-- No call goes to the bare socket. -/
def Shielded (c : Connection) : Prop :=
  c.tlsEnabled = true ∧ (c.tlsConnection.isSome = true ∨ c.socket.valid = false)

theorem Shielded.channel_read {c : Connection} (h : c.Shielded) (size : Nat) (answer : RecvAnswer) :
    (c.read size answer).channel ≠ some .plain := by
  obtain ⟨henabled, hsession⟩ := h
  unfold read
  cases hv : c.socket.valid with
  | false => simp [Transfer.error]
  | true =>
      obtain ⟨tls, htls⟩ := Option.isSome_iff_exists.mp (hsession.resolve_right (by simp [hv]))
      simp [henabled, htls, TlsConnection.channel_read]

theorem Shielded.channel_write {c : Connection} (h : c.Shielded) (data : Bytes)
    (answer : SendAnswer) : (c.write data answer).channel ≠ some .plain := by
  obtain ⟨henabled, hsession⟩ := h
  unfold write
  cases hv : c.socket.valid with
  | false => simp [Transfer.error]
  | true =>
      obtain ⟨tls, htls⟩ := Option.isSome_iff_exists.mp (hsession.resolve_right (by simp [hv]))
      simp [henabled, htls, TlsConnection.channel_write]

end Connection

namespace Session

/-! ## Confidentiality -/

/-- The bytes moved by `Socket::receive` or `Socket::send` directly. -/
def Event.plaintext : Event → Bytes
  | .received t | .sent _ _ _ t => if t.channel = some .plain then t.bytes else []
  | _ => []

/-- A call of `handshake` has succeeded. -/
def Event.succeeds : Event → Bool
  | .handshaken success => success
  | _ => false

/-- A request has been handed to the handler. -/
def Event.calls : Event → Bool
  | .handled _ _ | .threw _ => true
  | _ => false

/-- What has happened before a handshake has succeeded. -/
def early (log : List Event) : List Event := log.takeWhile fun e => !e.succeeds

structure Confidential (s : State) : Prop where
  noPlaintext : ∀ e ∈ s.log, e.plaintext = []
  early : ∀ e ∈ early s.log, e.calls = false

/-- `run` is called after a successful handshake, or on a closed connection. -/
def Guarded (s : State) : Action → Prop
  | .run =>
    s.log.any Event.succeeds = true ∨ s.connection.open = false ∨
      s.connection.socket.valid = false
  | _ => True

theorem mem_early_append {log new : List Event} {e : Event} (h : e ∈ early (log ++ new)) :
    e ∈ early log ∨ log.any Event.succeeds = false ∧ e ∈ new := by
  induction log with
  | nil => exact .inr ⟨rfl, (List.takeWhile_sublist _).subset h⟩
  | cons e' log ih =>
      unfold early at h ih ⊢
      rw [List.cons_append, List.takeWhile_cons] at h
      rw [List.takeWhile_cons, List.any_cons]
      cases he : e'.succeeds with
      | true => simp [he] at h
      | false =>
          simp only [he, Bool.not_false, if_true, List.mem_cons, Bool.false_or] at h ⊢
          rcases h with rfl | h
          · exact .inl (.inl rfl)
          · exact (ih h).imp_left .inr

/-! ## The invariant of guarded sessions -/

/-- Nothing is read as long as no handshake has succeeded: `run` finds the
connection closed. -/
def Idle (s : State) : Prop :=
  s.connection.readBuffer = [] ∧
    match s.control with
    | .outside | .closing => True
    | .looping => s.connection.open = false ∨ s.connection.socket.valid = false
    | .reading | .receiving => s.connection.socket.valid = false
    | .handling _ | .sending _ _ => False

structure Sealed (s : State) : Prop extends Confidential s where
  enabled : s.connection.tlsEnabled = true
  context : s.connection.tlsContext = true
  session : s.log.any Event.succeeds = true → s.connection.tlsConnection.isSome = true
  idle : s.log.any Event.succeeds = false → Idle s

/-- A step other than a call of `handshake`. -/
theorem Sealed.of_append {s t : State} {new : List Event} (h : Sealed s)
    (hlog : t.log = s.log ++ new) (hnew : ∀ e ∈ new, e.succeeds = false ∧ e.plaintext = [])
    (hcalls : Idle s → ∀ e ∈ new, e.calls = false)
    (henabled : t.connection.tlsEnabled = s.connection.tlsEnabled)
    (hcontext : t.connection.tlsContext = s.connection.tlsContext)
    (hsession : s.connection.tlsConnection.isSome = true →
      t.connection.tlsConnection.isSome = true)
    (hidle : Idle s → s.log.any Event.succeeds = false → Idle t) : Sealed t := by
  have hany : t.log.any Event.succeeds = s.log.any Event.succeeds := by
    have hfalse : new.any Event.succeeds = false := by
      rw [List.any_eq_false]
      exact fun e he => by simp [(hnew e he).1]
    rw [hlog, List.any_append, hfalse, Bool.or_false]
  refine ⟨⟨fun e he => ?_, fun e he => ?_⟩, henabled.trans h.enabled, hcontext.trans h.context,
    fun hs => ?_, fun hs => ?_⟩
  · rw [hlog, List.mem_append] at he
    exact he.elim (h.noPlaintext e) fun he => (hnew e he).2
  · rw [hlog] at he
    rcases mem_early_append he with hbefore | ⟨hnone, hafter⟩
    · exact h.early e hbefore
    · exact hcalls (h.idle hnone) e hafter
  · exact hsession (h.session (hany ▸ hs))
  · exact hidle (h.idle (hany ▸ hs)) (hany ▸ hs)

/-- Once the loop is at work, nothing goes to the bare socket. -/
theorem Sealed.shielded {s : State} (h : Sealed s)
    (hidle : Idle s → s.connection.socket.valid = false) : s.connection.Shielded := by
  refine ⟨h.enabled, ?_⟩
  cases hany : s.log.any Event.succeeds with
  | true => exact .inl (h.session hany)
  | false => exact .inr (hidle (h.idle hany))

theorem Sealed.handshake {s : State} (h : Sealed s) (hs : s.control = .outside)
    (outcome : HandshakeOutcome) :
    Sealed { s with
      connection := (s.connection.handshake outcome).1
      log := s.log ++ ((s.connection.handshake outcome).2.map Event.handshaken).toList } := by
  rw [Connection.handshake_of_enabled h.enabled h.context]
  cases outcome with
  | constructorThrew =>
      exact h.of_append rfl (by simp) (by simp) rfl rfl id fun hidle _ => hidle
  | refused =>
      refine h.of_append rfl (by simp [Event.succeeds, Event.plaintext]) (by simp [Event.calls])
        rfl rfl (fun _ => rfl) fun hidle _ => ?_
      simpa [Idle, hs] using hidle.1
  | accepted =>
      refine ⟨⟨fun e he => ?_, fun e he => ?_⟩, h.enabled, h.context, fun _ => rfl, fun hany => ?_⟩
      · cases List.mem_append.mp he with
        | inl hbefore => exact h.noPlaintext e hbefore
        | inr hafter =>
            obtain ⟨success, rfl⟩ := mem_handshaken hafter
            rfl
      · cases mem_early_append he with
        | inl hbefore => exact h.early e hbefore
        | inr hafter =>
            obtain ⟨success, rfl⟩ := mem_handshaken hafter.2
            rfl
      · simp [Event.succeeds] at hany

/-- A guarded step leaves the session sealed. -/
theorem Sealed.step {s t : State} {a : Action} (h : Sealed s) (hg : Guarded s a)
    (hst : Step s a t) : Sealed t := by
  cases hst with
  | handshaken hs => exact h.handshake hs _
  | closed hs =>
      refine h.of_append (List.append_nil _).symm (by simp) (by simp) rfl rfl
        (by simp [Connection.close]) fun hidle _ => ?_
      simpa [Idle, hs, Connection.close] using hidle
  | entered hs =>
      refine h.of_append (List.append_nil _).symm (by simp) (by simp) rfl rfl id
        fun hidle hnone => ⟨hidle.1, hg.resolve_left (by simp [hnone])⟩
  | continued hs ho =>
      refine h.of_append (List.append_nil _).symm (by simp) (by simp) rfl rfl id
        fun hidle _ => ⟨hidle.1, ?_⟩
      have hclosed := hidle.2
      rw [hs] at hclosed
      exact hclosed.resolve_left (by simp [ho])
  | left hs ho =>
      exact h.of_append (List.append_nil _).symm (by simp) (by simp) rfl rfl id
        fun hidle _ => ⟨hidle.1, trivial⟩
  | @parsed request consumed hs hv =>
      refine h.of_append rfl (by simp [Event.succeeds, Event.plaintext]) (by simp [Event.calls])
        rfl rfl id fun hidle _ => ?_
      have hsize := requestVerdict_done hv
      rw [hidle.1, List.length_nil] at hsize
      omega
  | wanting hs hv =>
      refine h.of_append (List.append_nil _).symm (by simp) (by simp) rfl rfl id
        fun hidle _ => ⟨hidle.1, ?_⟩
      simpa [hs] using hidle.2
  | rejected hs hv =>
      exact h.of_append rfl (by simp [Event.succeeds, Event.plaintext]) (by simp [Event.calls])
        rfl rfl id fun hidle _ => ⟨hidle.1, trivial⟩
  | @received answer t hs ht hne =>
      have hidle' : Idle s → s.connection.socket.valid = false := fun hidle => by
        simpa [hs] using hidle.2
      have hchannel := (h.shielded hidle').channel_read State.bufferSize answer
      rw [ht] at hchannel
      refine h.of_append rfl (by simp [Event.succeeds, Event.plaintext, hchannel])
        (by simp [Event.calls]) rfl rfl id fun hidle _ => ?_
      rw [Connection.read, hidle' hidle] at ht
      exact absurd (ht ▸ rfl) hne
  | @ended answer t hs ht hnil =>
      exact h.of_append rfl (by simp [Event.succeeds, Event.plaintext, hnil]) (by simp [Event.calls])
        rfl rfl id fun hidle _ => ⟨hidle.1, trivial⟩
  | handled hs | threw hs =>
      have hnot : ¬ Idle s := fun hidle => by simpa [hs] using hidle.2
      exact h.of_append rfl (by simp [Event.succeeds, Event.plaintext]) (fun hi => absurd hi hnot)
        rfl rfl id fun hi => absurd hi hnot
  | @sent request response answer success t hs hsend =>
      have hnot : ¬ Idle s := fun hidle => by simpa [hs] using hidle.2
      have hchannel := (h.shielded fun hi => absurd hi hnot).channel_write response.serialize answer
      have ht : s.connection.write response.serialize answer = t := (Prod.mk.inj hsend).2
      rw [ht] at hchannel
      exact h.of_append rfl (by simp [Event.succeeds, Event.plaintext, hchannel])
        (fun hi => absurd hi hnot) rfl rfl id fun hi => absurd hi hnot
  | returned hs =>
      exact h.of_append rfl (by simp [Event.succeeds, Event.plaintext]) (by simp [Event.calls])
        rfl rfl (by simp [Connection.close]) fun hidle _ => ⟨hidle.1, trivial⟩

/-! ## Outside of the condition -/

/-- An open connection has a live TLS session, or none. -/
def Live (s : State) : Prop :=
  s.connection.open = true →
    ∀ tls ∈ s.connection.tlsConnection, tls.open = true ∧ tls.ssl = true

theorem Live.step {s t : State} {a : Action} (h : Live s) (hst : Step s a t) : Live t := by
  cases hst with
  | @handshaken outcome hs =>
      intro hopen tls htls
      obtain ⟨_, _, he⟩ := s.connection.handshake_eq outcome
      rw [he] at hopen
      unfold Connection.handshake at htls
      split at htls
      · exact h hopen tls htls
      · cases outcome with
        | constructorThrew => exact h hopen tls htls
        | accepted | refused =>
            obtain rfl := Option.some.inj htls
            exact ⟨rfl, rfl⟩
  | closed | returned => exact nofun
  | _ => exact h

theorem requestVerdict_nil (limits : ParseLimits) : requestVerdict limits [] = .more := by
  rcases requestVerdict_cases limits [] with ⟨v, hv, -⟩ | ⟨-, h⟩ | ⟨hnot, -⟩
  · simp [headView, cutPair] at hv
  · exact h
  · exact absurd (.inl ⟨by decide, Nat.zero_le _⟩) hnot

theorem early_eq_self {log : List Event} (h : log.any Event.succeeds = false) :
    early log = log := by
  unfold early
  rw [List.takeWhile_eq_self_iff]
  intro e he
  simp [List.any_eq_false.mp h e he]

/-- Without a handshake `run` takes what arrives for a request. -/
theorem exists_early_call {c : Connection} {s : State} (hlive : Live s) (hidle : Idle s)
    (hs : s.control = .outside) (hearly : s.log.any Event.succeeds = false)
    (hopen : s.connection.open = true) (hvalid : s.connection.socket.valid = true) {data : Bytes}
    {request : HttpRequest} {consumed : Nat} (hlen : data.length ≤ State.bufferSize)
    (hdata : requestVerdict s.connection.limits data = .done request consumed) :
    ∃ t, (machine c).run s
        [.run, .loopTest, .parse, .receive (.data data), .parse, .handle none] = some t ∧
      ¬ Confidential t := by
  have hne : data ≠ [] := by
    rintro rfl
    have := requestVerdict_done hdata
    simp at this
    omega
  have hready : s.connection.Ready := ⟨hvalid, hlive hopen⟩
  have hbytes := hready.bytes_read hlen
  have hcount := (s.connection.read State.bufferSize (.data data)).count_pos_iff.mpr (by
    rw [hbytes]
    exact hne)
  refine ⟨_, by
    simp only [Machine.run, machine, State.step, hs, hopen, State.parse, hidle.1, if_true,
      requestVerdict_nil, State.receive, if_neg (Int.not_le.mpr hcount), hbytes, List.nil_append,
      hdata, State.handle, Option.bind_some]
    rfl, fun hconfidential => ?_⟩
  have hcalls := hconfidential.early (.threw request) (by
    rw [early_eq_self (by simp [hearly, Event.succeeds])]
    simp)
  contradiction

/-! ## Connections with a TLS context -/

/-- The sessions of a connection that is built with a TLS context. -/
def tlsMachine (socket : Socket) (limits : ParseLimits) (timeout : UInt32) :
    Machine State Action :=
  machine (.make socket true limits timeout)

theorem Sealed.init (socket : Socket) (limits : ParseLimits) (timeout : UInt32) :
    Sealed (tlsMachine socket limits timeout).init where
  noPlaintext _ he := absurd he List.not_mem_nil
  early _ he := absurd he List.not_mem_nil
  enabled := rfl
  context := rfl
  session h := Bool.noConfusion h
  idle _ := ⟨rfl, trivial⟩

theorem Live.init (socket : Socket) (limits : ParseLimits) (timeout : UInt32) :
    Live (tlsMachine socket limits timeout).init :=
  fun _ _ htls => absurd htls (Option.not_mem_none _)

/-- **Nothing in the clear, and no request before its time**, in the runs in
which every call of `run` is guarded; after such a run, a call that is not
guarded can hand over a request, if one within the limits fits a read. -/
theorem confidential_of_guarded (socket : Socket) (limits : ParseLimits) (timeout : UInt32)
    {as : List Action} {s : State}
    (h : (tlsMachine socket limits timeout).run (tlsMachine socket limits timeout).init as = some s)
    (hguarded : (tlsMachine socket limits timeout).Along Guarded
      (tlsMachine socket limits timeout).init as) :
    (∀ t, (tlsMachine socket limits timeout).Passes (tlsMachine socket limits timeout).init as t →
      Confidential t) ∧
    ∀ data request consumed, data.length ≤ State.bufferSize →
      requestVerdict limits data = .done request consumed → s.control = .outside →
      ¬ Guarded s .run → ∃ bs t,
        (tlsMachine socket limits timeout).run s (.run :: bs) = some t ∧ ¬ Confidential t := by
  have hsealed : ∀ t, (tlsMachine socket limits timeout).Passes
      (tlsMachine socket limits timeout).init as t → Sealed t := fun t ht =>
    ht.along (fun u a v hu hg hst => hu.step hg (.of_step hst)) hguarded (.init _ _ _)
  refine ⟨fun t ht => (hsealed t ht).toConfidential, ?_⟩
  intro data request consumed hlen hdata hs hnot
  have hreach : (tlsMachine socket limits timeout).Reachable s := ⟨as, h⟩
  have hlive : Live s :=
    hreach.invariant (.init _ _ _) fun u a v hu hst => hu.step (.of_step hst)
  have hlimits : s.connection.limits = limits := (Bounded.of_reachable hreach rfl).limits_eq
  obtain ⟨hearly, hopen, hvalid⟩ : s.log.any Event.succeeds = false ∧ s.connection.open = true ∧
      s.connection.socket.valid = true := by simpa [Guarded] using hnot
  have hidle := (hsealed s (.of_run h)).idle hearly
  obtain ⟨t, hrun, hviolated⟩ :=
    exists_early_call hlive hidle hs hearly hopen hvalid hlen (hlimits ▸ hdata)
  exact ⟨_, t, hrun, hviolated⟩

instance decidableGuarded (s : State) : ∀ a, Decidable (Guarded s a)
  | .run =>
    inferInstanceAs (Decidable (s.log.any Event.succeeds = true ∨ s.connection.open = false ∨
      s.connection.socket.valid = false))
  | .handshake _ | .close | .loopTest | .parse | .receive _ | .handle _ | .send _ | .leave =>
    isTrue trivial

/-- A handshake that succeeds, and a request. -/
theorem confidential_of_guarded_handshake :
    ∃ s, (tlsMachine ⟨3⟩ {} 5).run (tlsMachine ⟨3⟩ {} 5).init
        [.handshake .accepted, .run, .loopTest, .parse,
          .receive (.data (ascii "GET / HTTP/1.1\r\nHost: a\r\n\r\n")), .parse,
          .handle (some (.ok [])), .send (.taken 1000)] = some s ∧
      Confidential s := by
  obtain ⟨s, hs⟩ := Option.isSome_iff_exists.mp (show
    ((tlsMachine ⟨3⟩ {} 5).run (tlsMachine ⟨3⟩ {} 5).init
      [.handshake .accepted, .run, .loopTest, .parse,
        .receive (.data (ascii "GET / HTTP/1.1\r\nHost: a\r\n\r\n")), .parse,
        .handle (some (.ok [])), .send (.taken 1000)]).isSome = true by decide +kernel)
  exact ⟨s, hs, (confidential_of_guarded ⟨3⟩ {} 5 hs (by decide +kernel)).1 s (.of_run hs)⟩

/-- `run` without a handshake: the request is read from the bare socket. -/
theorem not_confidential_plain :
    ¬ ∀ (socket : Socket) (limits : ParseLimits) (timeout : UInt32) (as : List Action) (s : State),
      (tlsMachine socket limits timeout).run (tlsMachine socket limits timeout).init as = some s →
        ∀ t, (tlsMachine socket limits timeout).Passes (tlsMachine socket limits timeout).init as t →
          Confidential t := by
  intro h
  obtain ⟨s, hs, hplain⟩ := Option.map_eq_some_iff.mp (show
    ((tlsMachine ⟨3⟩ {} 5).run (tlsMachine ⟨3⟩ {} 5).init
      [.run, .loopTest, .parse, .receive (.data (ascii "GET"))]).map
      (fun s : State => s.log.map Event.plaintext) = some [ascii "GET"] by decide +kernel)
  obtain ⟨e, he, hbytes⟩ : ∃ e ∈ s.log, e.plaintext = ascii "GET" :=
    List.mem_map.mp (hplain ▸ List.mem_singleton_self _)
  have hnil := (h ⟨3⟩ {} 5 _ s hs s (.of_run hs)).noPlaintext e he
  have hne : ascii "GET" ≠ [] := by decide
  exact hne (hbytes.symm.trans hnil)

end Session

end HttpsServer
