import HttpsServer.Tls.Lifetime

/-!
# HttpsServer.Tls.OneContext

The TLS classes where there is one `TlsContext`.

A program that makes one context and shares it sees no more of the machine than
how many users have it and what its `TlsConnection`s are; `OneContext` says so, and
there is a lemma for each member function.
-/

namespace HttpsServer.Tls

/-- What the users of a `TlsConnection` see of it: its context, its members, and
whether it has been destroyed. -/
abbrev View := Nat × TlsConnection × Bool

def Session.view (session : Session) : View := (session.context, session.tls, session.alive)

/-- One `TlsContext` has been made, which this many users have, and these
`TlsConnection`s. -/
structure OneContext (users : Nat) (views : List View) (t : State) : Prop where
  sound : Sound t
  contexts : ∃ handle, (handle = none ∨ handle = some 0) ∧
    t.contexts = [{ handle := handle, users := users }]
  abandoned : t.abandoned = []
  sessions : t.sessions.map Session.view = views

theorem sessions_collect (s : State) (k : Nat) : (s.collect k).sessions = s.sessions := by
  unfold State.collect
  split
  · split <;> rfl
  · rfl

/-- The context may be destroyed with its last `shared_ptr`. -/
theorem contexts_collect {s : State} {handle : Option Nat} {users : Nat}
    (hhandle : handle = none ∨ handle = some 0)
    (hs : s.contexts = [{ handle := handle, users := users }]) :
    ∃ handle', (handle' = none ∨ handle' = some 0) ∧
      (s.collect 0).contexts = [{ handle := handle', users := users }] := by
  unfold State.collect
  split
  · rcases hhandle with rfl | rfl
    · exact ⟨none, .inl rfl, by simp [hs]⟩
    · exact ⟨none, .inl rfl, by simp [hs]⟩
  · exact ⟨handle, hhandle, hs⟩

namespace OneContext

variable {users : Nat} {views : List View} {t : State} {i : Nat} {tls : TlsConnection}

/-- A user has the context, so that it has its `SSL_CTX`. -/
theorem handle (h : OneContext users views t) (hpos : 0 < users) :
    t.contexts = [{ handle := some 0, users := users }] := by
  obtain ⟨handle, hhandle, hcontexts⟩ := h.contexts
  have hk : t.contexts[(0 : Nat)]? = some { handle := handle, users := users } := by
    rw [hcontexts]
    rfl
  have hsome := h.sound.inv.shared.owned _ _ hk (by
    rw [useCount_of_getElem? hk]
    exact Nat.add_pos_left hpos _)
  rcases hhandle with rfl | rfl
  · cases hsome
  · exact hcontexts

theorem init {t : State} (h : machine.run {} [.makeContext .made] = some t) : OneContext 1 [] t := by
  have hsound := Sound.of_run h
  cases h
  exact ⟨hsound, ⟨some 0, .inr rfl, rfl⟩, rfl, rfl⟩

theorem share (h : OneContext users views t) (hpos : 0 < users) :
    ∃ t', t.step (.share 0) = some t' ∧ OneContext (users + 1) views t' := by
  have hstep : t.step (.share 0) = some { t with
      contexts := [{ handle := some 0, users := users + 1 }] } := by
    simp [State.step, h.handle hpos, hpos]
  exact ⟨_, hstep, h.sound.step hstep, ⟨some 0, .inr rfl, rfl⟩, h.abandoned, h.sessions⟩

theorem drop (h : OneContext (users + 1) views t) :
    ∃ t', t.step (.drop 0) = some t' ∧ OneContext users views t' := by
  let left : State := { t with contexts := [{ handle := some 0, users := users }] }
  have hstep : t.step (.drop 0) = some (left.collect 0) := by
    simp [State.step, h.handle (Nat.succ_pos _), left]
  refine ⟨_, hstep, h.sound.step hstep, contexts_collect (.inr rfl) rfl, ?_, ?_⟩
  · rw [abandoned_collect]
    exact h.abandoned
  · rw [sessions_collect]
    exact h.sessions

/-- The constructor of `TlsConnection` throws. -/
theorem makeSession_threw (h : OneContext users views t) (hpos : 0 < users)
    {outcome : SessionOutcome} (hthrows : outcome ≠ .made) :
    ∃ t', t.step (.makeSession (some 0) outcome) = some t' ∧ OneContext users views t' := by
  have hstep : t.step (.makeSession (some 0) outcome) = some (t.makeSession 0 0 outcome) := by
    simp [State.step, h.handle hpos, hpos]
  refine ⟨_, hstep, ?_⟩
  have hsound := h.sound.step hstep
  cases outcome with
  | made => exact absurd rfl hthrows
  | noSession | notAttached => exact ⟨hsound, h.contexts, h.abandoned, h.sessions⟩

theorem makeSession (h : OneContext users views t) (hpos : 0 < users) :
    ∃ t', t.step (.makeSession (some 0) .made) = some t' ∧
      OneContext users (views ++ [(0, .make, true)]) t' := by
  have hstep : t.step (.makeSession (some 0) .made) = some (t.makeSession 0 0 .made) := by
    simp [State.step, h.handle hpos, hpos]
  refine ⟨_, hstep, h.sound.step hstep, h.contexts, h.abandoned, ?_⟩
  rw [← h.sessions]
  exact List.map_append

/-- A member function of a `TlsConnection` that exists. -/
theorem onSession (h : OneContext users views t) (hi : views[i]? = some (0, tls, true)) :
    ∃ session : Session, session.context = 0 ∧ session.tls = tls ∧ session.alive = true ∧
      ∀ f : Session → State, t.onSession i f = some (f session) := by
  rw [← h.sessions, List.getElem?_map, Option.map_eq_some_iff] at hi
  obtain ⟨session, hsession, hview⟩ := hi
  simp only [Session.view, Prod.mk.injEq] at hview
  obtain ⟨hcontext, htls, halive⟩ := hview
  refine ⟨session, hcontext, htls, halive, fun f => ?_⟩
  simp [State.onSession, hsession, halive]

theorem read (h : OneContext users views t) (hi : views[i]? = some (0, tls, true)) (size : Nat) :
    ∃ t', t.step (.read i size) = some t' ∧ OneContext users views t' := by
  obtain ⟨session, -, -, -, hcall⟩ := h.onSession hi
  have hstep : t.step (.read i size) = _ := hcall _
  exact ⟨_, hstep, h.sound.step hstep, h.contexts, h.abandoned, h.sessions⟩

theorem write (h : OneContext users views t) (hi : views[i]? = some (0, tls, true)) (data : Bytes) :
    ∃ t', t.step (.write i data) = some t' ∧ OneContext users views t' := by
  obtain ⟨session, -, -, -, hcall⟩ := h.onSession hi
  have hstep : t.step (.write i data) = _ := hcall _
  exact ⟨_, hstep, h.sound.step hstep, h.contexts, h.abandoned, h.sessions⟩

/-- The members of a `TlsConnection` change. -/
theorem sessions_set (h : OneContext users views t) {new : Session} {v : View}
    (hnew : new.view = v) : (t.sessions.set i new).map Session.view = views.set i v := by
  rw [List.map_set, h.sessions, hnew]

theorem handshake (h : OneContext users views t) (hi : views[i]? = some (0, tls, true))
    (accepted : Bool) : ∃ t', t.step (.handshake i accepted) = some t' ∧
      OneContext users (views.set i (0, (tls.handshake accepted).1, true)) t' := by
  obtain ⟨session, hcontext, htls, halive, hcall⟩ := h.onSession hi
  have hstep : t.step (.handshake i accepted) = _ := hcall _
  refine ⟨_, hstep, h.sound.step hstep, h.contexts, h.abandoned, h.sessions_set ?_⟩
  rw [Session.view, hcontext, htls, halive]

theorem close (h : OneContext users views t) (hi : views[i]? = some (0, tls, true)) :
    ∃ t', t.step (.close i) = some t' ∧ OneContext users (views.set i (0, tls.close, true)) t' := by
  obtain ⟨session, hcontext, htls, halive, hcall⟩ := h.onSession hi
  have hstep : t.step (.close i) = _ := hcall _
  refine ⟨_, hstep, h.sound.step hstep, h.contexts, h.abandoned, h.sessions_set ?_⟩
  rw [Session.view, hcontext, htls, halive]

theorem destroy (h : OneContext users views t) (hi : views[i]? = some (0, tls, true)) :
    ∃ t', t.step (.destroy i) = some t' ∧
      OneContext users (views.set i (0, tls.close, false)) t' := by
  obtain ⟨session, hcontext, htls, halive, hcall⟩ := h.onSession hi
  have hstep : t.step (.destroy i) = _ := hcall _
  rw [hcontext] at hstep
  obtain ⟨handle, hhandle, hcontexts⟩ := h.contexts
  refine ⟨_, hstep, h.sound.step hstep, contexts_collect hhandle hcontexts, ?_, ?_⟩
  · rw [abandoned_collect]
    exact h.abandoned
  · rw [sessions_collect]
    exact h.sessions_set (by rw [Session.view, htls])

end OneContext

end HttpsServer.Tls
