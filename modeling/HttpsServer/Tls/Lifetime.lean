import HttpsServer.Tls

/-!
# HttpsServer.Tls.Lifetime

No OpenSSL object is used after it has been freed, or freed twice.

An `SSL` belongs to one `TlsConnection` until `close`, and an `SSL_CTX` to one
`TlsContext` until the last `std::shared_ptr` is gone; a `TlsConnection` that has
its `SSL` has its `SSL_CTX` too.  When all objects are gone every `SSL` has been
freed, and so has every `SSL_CTX` except those of constructors that threw in
`configure`: their destructor is not run (`handles_safe`).
-/

namespace HttpsServer.Tls

open scoped List

variable {contexts : List Context} {sessions : List Session} {k : Nat}

/-! ## Owners -/

theorem useCount_of_getElem? {ctx : Context} (hk : contexts[k]? = some ctx) :
    useCount contexts sessions k = ctx.users + sessions.countP (Session.owns k) := by
  rw [useCount, hk, Option.map_some, Option.getD_some]

theorem useCount_set_self {ctx ctx' : Context} (hk : contexts[k]? = some ctx) :
    useCount (contexts.set k ctx') sessions k =
      ctx'.users + sessions.countP (Session.owns k) :=
  useCount_of_getElem? (List.getElem?_set_self (List.getElem?_eq_some_iff.1 hk).1)

theorem useCount_set_of_ne {j : Nat} (hj : j ≠ k) (ctx : Context) :
    useCount (contexts.set k ctx) sessions j = useCount contexts sessions j := by
  rw [useCount, useCount, List.getElem?_set_ne (Ne.symm hj)]

/-- A session that keeps its context keeps the counts. -/
theorem useCount_set_session {c j : Nat} {old : Session} (new : Session)
    (hc : sessions[c]? = some old) (hnew : new.owns j = old.owns j) :
    useCount contexts (sessions.set c new) j = useCount contexts sessions j := by
  have hcount := countP_set_slot (Session.owns j) new hc
  rw [hnew] at hcount
  rw [useCount, useCount]
  omega

/-- A session that goes gives up one share. -/
theorem useCount_set_gone {c j : Nat} {old : Session} (new : Session)
    (hc : sessions[c]? = some old) (hnew : new.alive = false) :
    useCount contexts (sessions.set c new) j + (if old.owns j then 1 else 0) =
      useCount contexts sessions j := by
  have hcount := countP_set_slot (Session.owns j) new hc
  have hgone : new.owns j = false := by rw [Session.owns, hnew, Bool.false_and]
  rw [hgone, if_neg Bool.false_ne_true] at hcount
  rw [useCount, useCount]
  omega

/-- Whoever has an owner has its `SSL_CTX`. -/
structure Shared (contexts : List Context) (sessions : List Session) : Prop where
  owned : ∀ k ctx, contexts[k]? = some ctx → 0 < useCount contexts sessions k →
    ctx.handle.isSome = true
  within : ∀ c ∈ sessions, c.alive = true → c.context < contexts.length

/-- Whoever has none, except perhaps these, has given it up. -/
def Swept (contexts : List Context) (sessions : List Session) (except : Nat → Prop) : Prop :=
  ∀ k ctx, ¬ except k → contexts[k]? = some ctx → ctx.handle.isSome = true →
    0 < useCount contexts sessions k

/-- One context changes. -/
theorem Shared.set_context (h : Shared contexts sessions) {ctx ctx' : Context}
    (hk : contexts[k]? = some ctx)
    (hself : 0 < ctx'.users + sessions.countP (Session.owns k) → ctx'.handle.isSome = true) :
    Shared (contexts.set k ctx') sessions where
  owned j new hj hcount := by
    by_cases hjk : j = k
    · subst hjk
      rw [useCount_set_self hk] at hcount
      rw [List.getElem?_set_self (List.getElem?_eq_some_iff.1 hk).1] at hj
      exact Option.some.inj hj ▸ hself hcount
    · rw [useCount_set_of_ne hjk] at hcount
      rw [List.getElem?_set_ne (Ne.symm hjk)] at hj
      exact h.owned j new hj hcount
  within c hc halive := by
    rw [List.length_set]
    exact h.within c hc halive

theorem Swept.set_context {except except' : Nat → Prop} (h : Swept contexts sessions except)
    {ctx ctx' : Context} (hk : contexts[k]? = some ctx) (hexcept : ∀ j, j ≠ k → except j → except' j)
    (hself : ¬ except' k → ctx'.handle.isSome = true →
      0 < ctx'.users + sessions.countP (Session.owns k)) :
    Swept (contexts.set k ctx') sessions except' := by
  intro j new hnot hj hsome
  by_cases hjk : j = k
  · subst hjk
    rw [List.getElem?_set_self (List.getElem?_eq_some_iff.1 hk).1] at hj
    rw [useCount_set_self hk]
    exact hself hnot (Option.some.inj hj ▸ hsome)
  · rw [useCount_set_of_ne hjk]
    rw [List.getElem?_set_ne (Ne.symm hjk)] at hj
    exact h j new (fun hin => hnot (hexcept j hjk hin)) hj hsome

/-- A new context with a user. -/
theorem useCount_append_context {j : Nat} (ctx : Context) (hj : j < contexts.length) :
    useCount (contexts ++ [ctx]) sessions j = useCount contexts sessions j := by
  rw [useCount, useCount, List.getElem?_append_left hj]

theorem Shared.append_context (h : Shared contexts sessions) {ctx : Context}
    (hsome : ctx.handle.isSome = true) : Shared (contexts ++ [ctx]) sessions where
  owned j new hj hcount := by
    obtain hj | ⟨rfl, rfl⟩ := getElem?_append_slot hj
    · rw [useCount_append_context ctx (List.getElem?_eq_some_iff.1 hj).1] at hcount
      exact h.owned j new hj hcount
    · exact hsome
  within c hc halive := by
    rw [List.length_append]
    exact Nat.lt_of_lt_of_le (h.within c hc halive) (Nat.le_add_right ..)

theorem Swept.append_context {except : Nat → Prop} (h : Swept contexts sessions except)
    {ctx : Context} (husers : 0 < ctx.users) : Swept (contexts ++ [ctx]) sessions except := by
  intro j new hnot hj hsome
  obtain hj | ⟨rfl, rfl⟩ := getElem?_append_slot hj
  · rw [useCount_append_context ctx (List.getElem?_eq_some_iff.1 hj).1]
    exact h j new hnot hj hsome
  · rw [useCount_of_getElem? List.getElem?_concat_length]
    exact Nat.lt_of_lt_of_le husers (Nat.le_add_right ..)

/-- The sessions change. -/
theorem Shared.of_count {sessions' : List Session} (h : Shared contexts sessions)
    (hcount : ∀ j, useCount contexts sessions' j ≤ useCount contexts sessions j)
    (hwithin : ∀ c ∈ sessions', c.alive = true → c.context < contexts.length) :
    Shared contexts sessions' where
  owned j ctx hj hpos := h.owned j ctx hj (Nat.lt_of_lt_of_le hpos (hcount j))
  within := hwithin

theorem Swept.of_count {sessions' : List Session} {except except' : Nat → Prop}
    (h : Swept contexts sessions except) (hexcept : ∀ j, except j → except' j)
    (hcount : ∀ j, ¬ except' j → useCount contexts sessions j ≤ useCount contexts sessions' j) :
    Swept contexts sessions' except' := fun j ctx hnot hj hsome =>
  Nat.lt_of_lt_of_le (h j ctx (fun hin => hnot (hexcept j hin)) hj hsome) (hcount j hnot)

/-! ## The invariant -/

structure Inv (s : State) : Prop where
  ssls : s.ssls.Keeps (s.sessions.filterMap Session.ssl?)
  sslContexts : s.sslContexts.Keeps (s.contexts.filterMap Context.handle ++ s.abandoned)
  closed : ∀ c ∈ s.sessions, c.alive = false → c.tls.ssl = false
  shared : Shared s.contexts s.sessions

variable {s t : State}

/-- A slot that gives its handle up. -/
theorem filterMap_set_none {α : Type} {l : List α} {f : α → Option Nat} {i h : Nat} {a b : α}
    (hi : l[i]? = some a) (ha : f a = some h) (hb : f b = none) :
    l.filterMap f ~ h :: (l.set i b).filterMap f := by
  have hmoved := filterMap_set_slot f b hi
  rw [ha, hb] at hmoved
  exact hmoved.symm

theorem Session.ssl?_of_ssl {c : Session} (h : c.tls.ssl = true) : c.ssl? = some c.handle :=
  if_pos h

theorem Session.ssl?_of_not_ssl {c : Session} (h : c.tls.ssl = false) : c.ssl? = none :=
  if_neg (by rw [h]; exact Bool.false_ne_true)

/-- **Collection**: a context without owners is destroyed. -/
theorem Inv.collect (h : Inv s) {k : Nat} (hswept : Swept s.contexts s.sessions (· = k)) :
    Inv (s.collect k) ∧ Swept (s.collect k).contexts (s.collect k).sessions fun _ => False := by
  -- whoever has given its `SSL_CTX` up already is swept
  have hrest : (∀ ctx, s.contexts[k]? = some ctx → ctx.handle.isSome = true →
      0 < useCount s.contexts s.sessions k) → Swept s.contexts s.sessions fun _ => False := by
    intro hself j ctx _ hj hsome
    by_cases hjk : j = k
    · subst hjk
      exact hself ctx hj hsome
    · exact hswept j ctx hjk hj hsome
  unfold State.collect
  split
  · next hzero =>
    split
    · next handle users hk =>
      have hcount : users + s.sessions.countP (Session.owns k) = 0 := by
        rwa [useCount_of_getElem? hk] at hzero
      have hfreed := h.sslContexts.perm ((filterMap_set_none (f := Context.handle)
        (b := { handle := none, users := users }) hk rfl rfl).append_right _)
      refine ⟨⟨h.ssls, hfreed.free, h.closed, h.shared.set_context hk fun hpos => ?_⟩,
        hswept.set_context hk (fun j hj hin => hj hin) fun _ hsome => ?_⟩
      · exact absurd hcount (Nat.pos_iff_ne_zero.1 hpos)
      · cases hsome
    · next hnone =>
      refine ⟨h, hrest fun ctx hk hsome => ?_⟩
      obtain ⟨handle, hhandle⟩ := Option.isSome_iff_exists.1 hsome
      exact absurd (hk.trans (by rw [← hhandle])) (hnone handle ctx.users)
  · next hpos => exact ⟨h, hrest fun _ _ _ => Nat.pos_of_ne_zero hpos⟩

/-! ## Steps -/

/-- A member function calls OpenSSL only where there is an `SSL`. -/
theorem Inv.callSsl (h : Inv s) {c : Nat} {session : Session} (hc : s.sessions[c]? = some session)
    {calls : Bool} (hcalls : calls = true → session.tls.ssl = true) :
    Inv (s.callSsl session calls) := by
  refine ⟨?_, h.sslContexts, h.closed, h.shared⟩
  simp only [State.callSsl]
  split
  · next hcall =>
    exact h.ssls.touch (List.mem_filterMap.2
      ⟨session, List.mem_of_getElem? hc, Session.ssl?_of_ssl (hcalls hcall)⟩)
  · exact h.ssls

/-- A session of which neither the context nor the `SSL` changes. -/
theorem Inv.set_session (h : Inv s) {c : Nat} {old new : Session} (hc : s.sessions[c]? = some old)
    (hcontext : new.context = old.context) (halive : new.alive = old.alive)
    (hhandle : new.handle = old.handle) (hssl : new.tls.ssl = old.tls.ssl) :
    Inv { s with sessions := s.sessions.set c new } := by
  have hheld : new.ssl? = old.ssl? := by rw [Session.ssl?, Session.ssl?, hssl, hhandle]
  have howns : ∀ j, new.owns j = old.owns j := fun j => by
    rw [Session.owns, Session.owns, halive, hcontext]
  have hmem : old ∈ s.sessions := List.mem_of_getElem? hc
  refine ⟨h.ssls.perm (.of_eq (filterMap_set_of_eq _ new hc hheld).symm), h.sslContexts, ?_,
    h.shared.of_count (fun j => (useCount_set_session new hc (howns j)).le) ?_⟩
  · intro c' hc' hdead
    rcases List.mem_or_eq_of_mem_set hc' with hold | rfl
    · exact h.closed c' hold hdead
    · rw [hssl]
      exact h.closed old hmem (halive ▸ hdead)
  · intro c' hc' hlive
    rcases List.mem_or_eq_of_mem_set hc' with hold | rfl
    · exact h.shared.within c' hold hlive
    · rw [hcontext]
      exact h.shared.within old hmem (halive ▸ hlive)

/-- A context of which only the number of users changes. -/
theorem Inv.set_users (h : Inv s) {k : Nat} {ctx : Context} (users : Nat)
    (hk : s.contexts[k]? = some ctx)
    (hself : 0 < users + s.sessions.countP (Session.owns k) → ctx.handle.isSome = true) :
    Inv { s with contexts := s.contexts.set k { ctx with users := users } } :=
  have hheld := filterMap_set_of_eq Context.handle { ctx with users := users } hk rfl
  ⟨h.ssls, h.sslContexts.perm (.of_eq (by rw [hheld])), h.closed, h.shared.set_context hk hself⟩

/-- The `SSL` is freed, if there is one. -/
theorem Inv.freeSsl (h : Inv s) {c : Nat} {old : Session} (new : Session)
    (hc : s.sessions[c]? = some old) (hcontext : new.context = old.context)
    (halive : new.alive = true → old.alive = true)
    (hssl : new.tls.ssl = false) :
    Inv { s.freeSsl old with sessions := s.sessions.set c new } := by
  have hheld : new.ssl? = none := Session.ssl?_of_not_ssl hssl
  refine ⟨?_, h.sslContexts, ?_, h.shared.of_count (fun j => ?_) ?_⟩
  · cases hold : old.tls.ssl with
    | true =>
        have hsome := Session.ssl?_of_ssl hold
        have hfreed := (h.ssls.perm (filterMap_set_none hc hsome hheld)).free
        simpa only [State.freeSsl, hsome] using hfreed
    | false =>
        have hnone := Session.ssl?_of_not_ssl hold
        have hkept := h.ssls.perm (.of_eq (filterMap_set_of_eq _ new hc (hheld.trans hnone.symm)).symm)
        simpa only [State.freeSsl, hnone] using hkept
  · intro c' hc' hdead
    rcases List.mem_or_eq_of_mem_set hc' with hold | rfl
    · exact h.closed c' hold hdead
    · exact hssl
  · have hcount := countP_set_slot (Session.owns j) new hc
    have hless : (if new.owns j then 1 else 0) ≤ if old.owns j then 1 else 0 := by
      simp only [Session.owns, hcontext]
      cases hnew : new.alive with
      | true => simp [halive hnew]
      | false => simp
    rw [useCount, useCount]
    dsimp only
    omega
  · intro c' hc' hlive
    rcases List.mem_or_eq_of_mem_set hc' with hold | rfl
    · exact h.shared.within c' hold hlive
    · rw [hcontext]
      exact h.shared.within old (List.mem_of_getElem? hc) (halive hlive)

/-- Every context has what its owners need, and none has it for nobody. -/
structure Sound (s : State) : Prop where
  inv : Inv s
  swept : Swept s.contexts s.sessions fun _ => False

theorem Sound.init : Sound {} where
  inv := {
    ssls := .empty
    sslContexts := .empty
    closed := List.forall_mem_nil _
    shared := {
      owned := fun k ctx hk => by simp at hk
      within := List.forall_mem_nil _ } }
  swept := fun k ctx _ hk => by simp at hk

/-- A context is constructed, or its `SSL_CTX` is abandoned. -/
theorem Sound.makeContext (h : Sound s) (outcome : ContextOutcome) :
    Sound (s.makeContext outcome) := by
  have hcreated := h.inv.sslContexts.create.touch List.mem_cons_self
  have habandoned : Sound { s with
      sslContexts := s.sslContexts.create.touch s.sslContexts.next
      abandoned := s.sslContexts.next :: s.abandoned } :=
    ⟨⟨h.inv.ssls, hcreated.perm List.perm_middle.symm, h.inv.closed, h.inv.shared⟩, h.swept⟩
  cases outcome with
  | noContext => exact h
  | noCertificate | noPrivateKey | mismatch => exact habandoned
  | made =>
      refine ⟨⟨h.inv.ssls, hcreated.perm ?_, h.inv.closed, h.inv.shared.append_context rfl⟩,
        h.swept.append_context Nat.one_pos⟩
      simp only [State.makeContext, List.filterMap_append, List.filterMap_cons, List.filterMap_nil,
        List.append_assoc, List.singleton_append]
      exact List.perm_middle.symm

/-- A session is constructed, or its `SSL` is freed again. -/
theorem Sound.makeSession (h : Sound s) {k handle users : Nat}
    (hk : s.contexts[k]? = some { handle := some handle, users := users })
    (outcome : SessionOutcome) : Sound (s.makeSession k handle outcome) := by
  have hmem : handle ∈ s.contexts.filterMap Context.handle ++ s.abandoned :=
    List.mem_append_left _ (List.mem_filterMap.2 ⟨_, List.mem_of_getElem? hk, rfl⟩)
  have hused := h.inv.sslContexts.touch hmem
  have hcreated := h.inv.ssls.create.touch List.mem_cons_self
  cases outcome with
  | noSession => exact ⟨⟨h.inv.ssls, hused, h.inv.closed, h.inv.shared⟩, h.swept⟩
  | notAttached => exact ⟨⟨hcreated.free, hused, h.inv.closed, h.inv.shared⟩, h.swept⟩
  | made =>
      let new : Session := { context := k, handle := s.ssls.next, tls := .make, alive := true }
      have hcount : ∀ j, useCount s.contexts (s.sessions ++ [new]) j =
          useCount s.contexts s.sessions j + if new.owns j then 1 else 0 := fun j => by
        rw [useCount, useCount, List.countP_append, List.countP_singleton, Nat.add_assoc]
      have hlt : k < s.contexts.length := (List.getElem?_eq_some_iff.1 hk).1
      refine ⟨⟨hcreated.perm ?_, hused, ?_, ⟨fun j ctx hj hpos => ?_, ?_⟩⟩,
        h.swept.of_count (fun _ => id) fun j _ => ?_⟩
      · simp only [State.makeSession, List.filterMap_append]
        exact (List.perm_append_singleton s.ssls.next _).symm
      · intro c hc hdead
        rcases List.mem_append.1 hc with hold | hnew
        · exact h.inv.closed c hold hdead
        · rw [List.mem_singleton.1 hnew] at hdead
          cases hdead
      · by_cases hjk : j = k
        · subst hjk
          rw [Option.some.inj (hj.symm.trans hk), Option.isSome_some]
        · refine h.inv.shared.owned j ctx hj ?_
          have hother : new.owns j = false := by simp [new, Session.owns, Ne.symm hjk]
          have hsame := hcount j
          rw [hother, if_neg Bool.false_ne_true, Nat.add_zero] at hsame
          exact hsame ▸ hpos
      · intro c hc halive
        rcases List.mem_append.1 hc with hold | hnew
        · exact h.inv.shared.within c hold halive
        · rw [List.mem_singleton.1 hnew]
          exact hlt
      · exact (hcount j).ge.trans' (Nat.le_add_right ..)

/-- A member function that only calls OpenSSL. -/
theorem Sound.callSsl (h : Sound s) {c : Nat} {session : Session}
    (hc : s.sessions[c]? = some session) {calls : Bool}
    (hcalls : calls = true → session.tls.ssl = true) : Sound (s.callSsl session calls) :=
  ⟨h.inv.callSsl hc hcalls, h.swept⟩

theorem Sound.step {a : Action} (h : Sound s) (hst : s.step a = some t) : Sound t := by
  -- a member function of a session that has not been destroyed
  have hcall : ∀ {c : Nat} {f : Session → State}, s.onSession c f = some t →
      ∃ session, s.sessions[c]? = some session ∧ session.alive = true ∧ f session = t := by
    intro c f hf
    unfold State.onSession at hf
    split at hf
    · next session hc =>
      split at hf
      · next halive => exact ⟨session, hc, halive, Option.some.inj hf⟩
      · cases hf
    · cases hf
  cases a with
  | makeContext outcome =>
      cases hst
      exact h.makeContext outcome
  | share k =>
      simp only [State.step] at hst
      split at hst
      · next ctx hk =>
        split at hst
        · next husers =>
          cases hst
          have hhandle : ctx.handle.isSome = true := by
            refine h.inv.shared.owned k ctx hk ?_
            rw [useCount_of_getElem? hk]
            exact Nat.lt_of_lt_of_le husers (Nat.le_add_right ..)
          exact ⟨h.inv.set_users _ hk fun _ => hhandle,
            h.swept.set_context hk (fun _ _ hin => hin) fun _ _ => by dsimp only; omega⟩
        · cases hst
      · cases hst
  | drop k =>
      simp only [State.step] at hst
      split at hst
      · next ctx hk =>
        split at hst
        · next husers =>
          cases hst
          obtain ⟨hinv, hswept⟩ := (h.inv.set_users (ctx.users - 1) hk fun _ => by
            refine h.inv.shared.owned k ctx hk ?_
            rw [useCount_of_getElem? hk]
            exact Nat.lt_of_lt_of_le husers (Nat.le_add_right ..)).collect
              (h.swept.set_context hk (fun _ _ => False.elim) fun hnot => absurd rfl hnot)
          exact ⟨hinv, hswept⟩
        · cases hst
      · cases hst
  | makeSession k outcome =>
      cases k with
      | none =>
          cases hst
          exact h
      | some k =>
          simp only [State.step] at hst
          split at hst
          · next handle users hk =>
            split at hst
            · cases hst
              exact h.makeSession hk outcome
            · cases hst
          · cases hst
  | handshake c accepted =>
      obtain ⟨session, hc, halive, rfl⟩ := hcall hst
      have hssl : (session.tls.handshake accepted).1.ssl = session.tls.ssl := by
        unfold TlsConnection.handshake
        split <;> rfl
      exact ⟨(h.inv.callSsl hc id).set_session hc rfl rfl rfl hssl, h.swept.of_count (fun _ => id)
        fun j _ => (useCount_set_session
          { session with tls := (session.tls.handshake accepted).1 } hc rfl).ge⟩
  | read c size =>
      obtain ⟨session, hc, halive, rfl⟩ := hcall hst
      exact h.callSsl hc fun hcalls => (Bool.and_eq_true_iff.1 (Bool.and_eq_true_iff.1 hcalls).1).2
  | write c data =>
      obtain ⟨session, hc, halive, rfl⟩ := hcall hst
      exact h.callSsl hc fun hcalls => (Bool.and_eq_true_iff.1 (Bool.and_eq_true_iff.1 hcalls).1).2
  | shutdown c =>
      obtain ⟨session, hc, halive, rfl⟩ := hcall hst
      exact h.callSsl hc id
  | close c =>
      obtain ⟨session, hc, halive, rfl⟩ := hcall hst
      exact ⟨h.inv.freeSsl _ hc rfl id rfl,
        h.swept.of_count (fun _ => id) fun j _ =>
          (useCount_set_session { session with tls := session.tls.close } hc rfl).ge⟩
  | destroy c =>
      obtain ⟨session, hc, halive, rfl⟩ := hcall hst
      let gone : Session := { session with tls := session.tls.close, alive := false }
      have hcount : ∀ j, ¬ j = session.context →
          useCount s.contexts s.sessions j ≤ useCount s.contexts (s.sessions.set c gone) j := by
        intro j hj
        have hother : session.owns j = false := by simp [Session.owns, Ne.symm hj]
        have hless : useCount s.contexts (s.sessions.set c gone) j + _ = _ :=
          useCount_set_gone gone hc rfl
        rw [hother, if_neg Bool.false_ne_true] at hless
        exact hless.ge
      obtain ⟨hinv, hswept⟩ := (h.inv.freeSsl gone hc rfl
        (fun hdead => absurd hdead Bool.false_ne_true) rfl).collect
          (h.swept.of_count (fun _ => False.elim) hcount)
      exact ⟨hinv, hswept⟩

theorem Sound.of_run {as : List Action} (h : machine.run {} as = some s) : Sound s :=
  Machine.Reachable.invariant (M := machine) .init (fun _ _ _ hs hst => hs.step hst) ⟨as, h⟩

/-! ## What is left over -/

theorem abandoned_collect (s : State) (k : Nat) : (s.collect k).abandoned = s.abandoned := by
  unfold State.collect
  split
  · split <;> rfl
  · rfl

theorem abandoned_onSession {c : Nat} {f : Session → State} (h : s.onSession c f = some t)
    (hf : ∀ session, (f session).abandoned = s.abandoned) : t.abandoned = s.abandoned := by
  unfold State.onSession at h
  split at h
  · split at h
    · cases h
      exact hf _
    · cases h
  · cases h

/-- Only a constructor of `TlsContext` leaves something behind. -/
theorem abandoned_step {a : Action} (h : s.step a = some t) :
    t.abandoned.length = s.abandoned.length + if a.abandons then 1 else 0 := by
  cases a with
  | makeContext outcome =>
      cases h
      cases outcome <;> rfl
  | share k =>
      simp only [State.step] at h
      repeat' split at h
      all_goals cases h
      rfl
  | drop k =>
      simp only [State.step] at h
      repeat' split at h
      all_goals cases h
      rw [abandoned_collect]
      rfl
  | makeSession k outcome =>
      cases k with
      | none =>
          cases h
          rfl
      | some k =>
          simp only [State.step] at h
          repeat' split at h
          all_goals cases h
          cases outcome <;> rfl
  | handshake | read | write | shutdown | close =>
      rw [abandoned_onSession h fun _ => rfl]
      rfl
  | destroy c =>
      rw [abandoned_onSession h fun _ => abandoned_collect _ _]
      rfl

theorem abandoned_run {as : List Action} (h : machine.run s as = some t) :
    t.abandoned.length = s.abandoned.length + as.countP Action.abandons := by
  induction as generalizing s with
  | nil =>
      cases h
      rfl
  | cons a as ih =>
      obtain ⟨s', hs', hrun⟩ := Machine.run_cons_eq_some.1 h
      rw [ih hrun, abandoned_step hs', List.countP_cons]
      omega

/-- **OpenSSL objects are used while they exist, and freed once.**  In every run:
no call is made on an `SSL` or `SSL_CTX` that has been freed; an `SSL` belongs to
one `TlsConnection`, which has not been destroyed and whose `TlsContext` still
has its `SSL_CTX`; when every `TlsConnection` is gone no `SSL` is left; and when
the users of every `TlsContext` are gone too, what is left are the `SSL_CTX`
objects of the constructors that threw after `SSL_CTX_new`, one for each. -/
theorem handles_safe {as : List Action} (h : machine.run {} as = some s) :
    s.ssls.misused = false ∧ s.sslContexts.misused = false ∧
    (∀ (c : Nat) (session : Session), s.sessions[c]? = some session → session.tls.ssl = true →
      session.alive = true ∧ s.ssls.Live session.handle ∧
      (∀ (d : Nat) (other : Session), s.sessions[d]? = some other → other.tls.ssl = true →
        other.handle = session.handle → d = c) ∧
      ∃ ctx handle, s.contexts[session.context]? = some ctx ∧ ctx.handle = some handle ∧
        s.sslContexts.Live handle) ∧
    ((∀ session ∈ s.sessions, session.alive = false) → ∀ k, ¬ s.ssls.Live k) ∧
    ((∀ session ∈ s.sessions, session.alive = false) → (∀ ctx ∈ s.contexts, ctx.users = 0) →
      ∀ k, s.sslContexts.Live k ↔ k ∈ s.abandoned) ∧
    s.abandoned.length = as.countP Action.abandons := by
  obtain ⟨hinv, hswept⟩ := Sound.of_run h
  refine ⟨hinv.ssls.used, hinv.sslContexts.used, fun c session hc hssl => ?_, fun hgone k hlive => ?_,
    fun hgone husers k => ?_, ?_⟩
  · have hmem := List.mem_of_getElem? hc
    have hsome := Session.ssl?_of_ssl hssl
    have halive : session.alive = true := by
      cases hlive : session.alive with
      | true => rfl
      | false =>
          rw [hinv.closed session hmem hlive] at hssl
          cases hssl
    refine ⟨halive, (hinv.ssls.live _).1 (List.mem_filterMap.2 ⟨session, hmem, hsome⟩),
      fun d other hd hother hsame => ?_, ?_⟩
    · refine slot_unique_of_nodup hinv.ssls.nodup hd hc (Session.ssl?_of_ssl hother) ?_
      rw [hsome, hsame]
    · have hk := List.getElem?_eq_getElem (hinv.shared.within session hmem halive)
      have howner : 0 < useCount s.contexts s.sessions session.context := by
        rw [useCount_of_getElem? hk]
        refine Nat.lt_of_lt_of_le (List.countP_pos_iff.2 ⟨session, hmem, ?_⟩) (Nat.le_add_left ..)
        rw [Session.owns, halive, beq_self_eq_true]
        rfl
      obtain ⟨handle, hhandle⟩ := Option.isSome_iff_exists.1 (hinv.shared.owned _ _ hk howner)
      refine ⟨_, handle, hk, hhandle, (hinv.sslContexts.live _).1 (List.mem_append_left _ ?_)⟩
      exact List.mem_filterMap.2 ⟨_, List.mem_of_getElem? hk, hhandle⟩
  · obtain ⟨session, hmem, hsome⟩ := List.mem_filterMap.1 ((hinv.ssls.live k).2 hlive)
    rw [Session.ssl?_of_not_ssl (hinv.closed session hmem (hgone session hmem))] at hsome
    cases hsome
  · rw [← hinv.sslContexts.live k, List.mem_append]
    refine ⟨fun hmem => hmem.resolve_left fun hheld => ?_, .inr⟩
    obtain ⟨ctx, hctx, hhandle⟩ := List.mem_filterMap.1 hheld
    obtain ⟨j, hj⟩ := List.mem_iff_getElem?.1 hctx
    have hcount := hswept j ctx not_false hj (Option.isSome_of_mem hhandle)
    have hnobody : s.sessions.countP (Session.owns j) = 0 := by
      refine List.countP_eq_zero.2 fun session hmem => ?_
      rw [Session.owns, hgone session hmem, Bool.false_and]
      exact Bool.false_ne_true
    rw [useCount_of_getElem? hj, husers ctx hctx, hnobody] at hcount
    exact Nat.lt_irrefl 0 hcount
  · rw [abandoned_run h]
    exact Nat.zero_add _

/-- The first key does not fit, the second does; a client is served and the
server goes. -/
def secondKey : List Action :=
  [.makeContext .mismatch, .makeContext .made, .share 0, .makeSession (some 0) .made,
    .handshake 0 true, .drop 0, .drop 0, .read 0 4096, .write 0 (ascii "hi"), .close 0, .destroy 0]

theorem handles_safe_secondKey :
    ∃ s, machine.run {} secondKey = some s ∧ (∀ k, ¬ s.ssls.Live k) ∧
      (∀ k, s.sslContexts.Live k ↔ k ∈ s.abandoned) ∧ s.abandoned.length = 1 := by
  obtain ⟨s, hs, hends⟩ := Option.map_eq_some_iff.1 (show
    (machine.run {} secondKey).map (fun s => decide (
      (∀ session ∈ s.sessions, session.alive = false) ∧ ∀ ctx ∈ s.contexts, ctx.users = 0)) =
        some true by decide +kernel)
  obtain ⟨hgone, husers⟩ := of_decide_eq_true hends
  obtain ⟨-, -, -, hssls, hcontexts, habandoned⟩ := handles_safe hs
  exact ⟨s, hs, hssls hgone, hcontexts hgone husers, habandoned⟩

end HttpsServer.Tls
