import HttpsServer.Server.Work
import HttpsServer.System.Projection

/-!
# HttpsServer.System.Work

What a server has still to do for its connections.

To the server alone `connection->run` is one call, which may take any time.
Here its steps are counted as well.  A request takes 16 bytes out of the buffer
and five steps at the most, so what a connection does between two reads is paid
for by the bytes that have arrived (`Session.Step.work`).  With the work of the
threads this makes a measure of the whole system once it has been stopped
(`Step.work`), and of what it does between two waits at any time
(`Step.workToWait`).  Whether and when `accept`, a handshake, a read or a write
returns is up to the network: that is no step of the threads' own, and nothing else
takes a thread out of such a call (`waits_on`).
-/

namespace HttpsServer

/-- What a read brings in: its bytes, and the work of looking at them. -/
def RecvAnswer.brings : RecvAnswer → Nat
  | .data available => if available = [] then 0 else available.length + 2
  | .wouldBlock | .failed => 0

/-- A read delivers no more than there is. -/
theorem Connection.length_read_add_two_le (c : Connection) (size : Nat) (answer : RecvAnswer)
    (h : (c.read size answer).bytes ≠ []) :
    (c.read size answer).bytes.length + 2 ≤ answer.brings := by
  have hcut : ∀ {available : Bytes}, available.take size ≠ [] →
      (available.take size).length + 2 ≤ (RecvAnswer.data available).brings := by
    intro available hne
    have hsome : available ≠ [] := by
      rintro rfl
      exact hne List.take_nil
    rw [RecvAnswer.brings, if_neg hsome, List.length_take]
    omega
  revert h
  unfold Connection.read
  split
  · exact fun h => absurd rfl h
  · split
    · next tls _ =>
        unfold TlsConnection.read
        split
        · exact fun h => absurd rfl h
        · cases answer with
          | data available =>
              dsimp only
              split
              · exact fun h => absurd rfl h
              · exact hcut
          | wouldBlock | failed => exact fun h => absurd rfl h
    · unfold Socket.receive
      split
      · exact fun h => absurd rfl h
      · split
        · exact fun h => absurd rfl h
        · cases answer with
          | data available => exact hcut
          | wouldBlock | failed => exact fun h => absurd rfl h

namespace Session

/-! ## A connection -/

def Event.handshakes : Event → Bool
  | .handshaken _ => true
  | _ => false

/-- The steps of `run` up to the next read.  A byte of the buffer pays for one,
and a connection on which `run` has not been called has all of it before it. -/
def State.work (s : State) : Nat :=
  match s.control with
  | .outside => if s.log.all Event.handshakes then s.connection.readBuffer.length + 5 else 0
  | .looping => s.connection.readBuffer.length + 4
  | .reading => s.connection.readBuffer.length + 3
  | .receiving => s.connection.readBuffer.length + 2
  | .handling _ => s.connection.readBuffer.length + 6
  | .sending _ _ => s.connection.readBuffer.length + 5
  | .closing => 1

/-- A step inside `run`, or its beginning. -/
def Action.runs : Action → Bool
  | .handshake _ | .close => false
  | .run | .loopTest | .parse | .receive _ | .handle _ | .send _ | .leave => true

def Action.brings : Action → Nat
  | .receive answer => answer.brings
  | _ => 0

/-- **Step**: `run` uses up its work, or the bytes that come in, if it is called
only once. -/
theorem Step.work {s t : State} {a : Action} (hst : Step s a t)
    (hrun : a = .run → s.log.all Event.handshakes = true) :
    (if a.runs then 1 else 0) + t.work ≤ s.work + a.brings := by
  cases hst with
  | @handshaken outcome hs =>
      obtain ⟨tls, complete, he⟩ := s.connection.handshake_eq outcome
      simp only [State.work, hs, he, Action.runs, List.all_append]
      cases (s.connection.handshake outcome).2 <;> simp [Event.handshakes]
  | closed hs => simp [State.work, hs, Action.runs, Connection.close]
  | entered hs =>
      simp only [State.work, hs, hrun rfl, Action.runs, if_true]
      omega
  | continued hs _ | left hs _ | wanting hs _ | handled hs | ended hs _ _ =>
      simp only [State.work, hs, Action.runs, if_true]
      omega
  | parsed hs hv =>
      have hlen := requestVerdict_done hv
      simp only [State.work, hs, Action.runs, if_true, List.length_drop]
      omega
  | rejected hs _ | threw hs =>
      simp [State.work, hs, Action.runs, Event.handshakes]
      omega
  | returned hs => simp [State.work, hs, Action.runs, Event.handshakes]
  | @received answer transfer hs ht hne =>
      subst ht
      have hread := s.connection.length_read_add_two_le State.bufferSize answer hne
      simp only [State.work, hs, Action.runs, Action.brings, if_true, List.length_append]
      omega
  | @sent request response answer success transfer hs _ =>
      have hnext : ∀ b : Bool, State.work { s with
          control := if b then .looping else .closing
          log := s.log ++ [.sent request response success transfer] } ≤
            s.connection.readBuffer.length + 4 := by
        rintro (_ | _)
        · exact Nat.le_add_left 1 _
        · exact Nat.le_refl _
      have hwork := hnext (success && s.connection.shouldKeepAlive request)
      simp only [State.work, hs, Action.runs, if_true] at hwork ⊢
      omega

/-- The thread inside `run` waits for the network. -/
def Control.waits : Control → Bool
  | .receiving | .sending _ _ => true
  | .outside | .looping | .reading | .handling _ | .closing => false

/-- What a read or a write returns. -/
def Action.answers : Action → Bool
  | .receive _ | .send _ => true
  | .handshake _ | .close | .run | .loopTest | .parse | .handle _ | .leave => false

/-- A thread that waits goes on when the call returns. -/
theorem Step.answers_of_waits {s t : State} {a : Action} (hst : Step s a t)
    (hs : s.control.waits = true) : a.answers = true := by
  cases hst with
  | received | ended | sent => rfl
  | handshaken hcontrol | closed hcontrol | entered hcontrol | continued hcontrol | left hcontrol
  | parsed hcontrol | wanting hcontrol | rejected hcontrol | handled hcontrol | threw hcontrol
  | returned hcontrol =>
      rw [hcontrol] at hs
      cases hs

end Session

namespace System

/-! ## The system -/

/-- A step the threads take of themselves. -/
def Action.own : Action → Bool
  | .server a => a.own && !a.waits
  | .accept _ | .handshake _ | .run _ (.receive _) | .run _ (.send _) => false
  | .run _ _ | .destroy _ => true

/-- An answer of the network: `accept`, the handshake, a read or a write returns
or throws. -/
def Action.answers : Action → Bool
  | .server a => a.waits
  | .accept _ | .handshake _ | .run _ (.receive _) | .run _ (.send _) => true
  | .run _ _ | .destroy _ => false

/-- What comes in from outside: calls of member functions of the server, spurious
wake-ups, and what a read delivers. -/
def Action.brings (n : Nat) : Action → Nat
  | .server a => 7 * a.brings n
  | .run _ (.receive answer) => answer.brings
  | .accept _ | .handshake _ | .run _ _ | .destroy _ => 0

theorem Action.brings_of_own {a : Action} (n : Nat) (h : a.own = true) : a.brings n = 0 := by
  cases a with
  | server a =>
      simp only [own, Bool.and_eq_true] at h
      rw [brings, Server.Action.brings_of_own n h.1]
  | run w move => cases move <;> first | rfl | cases h
  | accept | handshake | destroy => rfl

/-- Inside `connection->run` a worker takes a step of its own, or it gets an
answer. -/
theorem Move.own_or_answers (w : Nat) (move : Move) :
    ((Action.run w move).own || (Action.run w move).answers) = true := by
  cases move <;> rfl

/-- The steps of its connection, and its destruction. -/
def Object.work (o : Object) : Nat := o.session.work + if o.destroyed then 0 else 1

/-- What is left to be done.  A step of the server is worth the work of a new
connection. -/
def State.work (n : Nat) (s : State) : Nat :=
  7 * s.server.work n + (s.objects.map Object.work).sum

variable {setup : Setup} {s t : State}

/-- `stopping_` stays set. -/
theorem Step.stopping_mono {a : Action} (hst : Step setup s a t)
    (hstop : s.server.stopping = true) : t.server.stopping = true :=
  hst.server_reaches.preserves (I := fun u => u.stopping = true)
    (fun _ _ _ hu huv => (Server.Step.of_step huv).stopping_mono hu) hstop

theorem all_handshakes_of_untouched {session : Session.State} (h : Untouched session) :
    session.log.all Session.Event.handshakes = true := by
  rw [List.all_eq_true]
  intro e he
  obtain ⟨success, rfl⟩ := h e he
  rfl

/-- A step inside `connection->run` brings in what it reads. -/
theorem Move.brings_eq {move : Move} {control : Session.Control} {a : Session.Action} (n w : Nat)
    (h : move.action setup control = some a) :
    a.runs = true ∧ a.brings = (Action.run w move).brings n := by
  cases move with
  | handle =>
      simp only [Move.action] at h
      split at h
      · cases h
        exact ⟨rfl, rfl⟩
      · cases h
  | enter | loopTest | parse | receive | send | leave =>
      cases h
      exact ⟨rfl, rfl⟩

/-- One connection takes a step. -/
theorem sum_work_advance {c : Nat} {o : Object} {a : Session.Action} {session : Session.State}
    {v : Server.State} (hc : s.objects[c]? = some o) (hst : Session.Step o.session a session)
    (hrun : a = .run → o.session.log.all Session.Event.handshakes = true) :
    (if a.runs then 1 else 0) + ((s.advance c o a session v).objects.map Object.work).sum ≤
      (s.objects.map Object.work).sum + a.brings := by
  have hsession := hst.work hrun
  have hset := sum_map_set_slot Object.work { o with session := session } hc
  simp only [Object.work] at hset
  simp only [State.advance]
  omega

/-- A worker takes a step inside `connection->run`. -/
theorem sum_work_run (h : (machine setup).Reachable s) {w c : Nat} {move : Move} {o : Object}
    {a : Session.Action} {session : Session.State} (v : Server.State) (n : Nat)
    (hpooled : s.server.connections[c]? = some .pooled) (hc : s.objects[c]? = some o)
    (ha : move.action setup o.session.control = some a)
    (hsession : o.session.step a = some session) :
    1 + ((s.advance c o a session v).objects.map Object.work).sum ≤
      (s.objects.map Object.work).sum + (Action.run w move).brings n := by
  have hconsistent := Consistent.of_reachable h
  obtain ⟨hruns, hbrings⟩ := Move.brings_eq n w ha
  have hlawful := Move.lawful (hconsistent.admitted c o hc (.inl hpooled))
    (hconsistent.untouched c o hc (.inr hpooled)) ha (.of_step hsession)
  have hobject := sum_work_advance (v := v) hc (.of_step hsession) fun hrun =>
    all_handshakes_of_untouched (by subst hrun; exact hlawful.2)
  rwa [hruns, hbrings, if_pos rfl] at hobject

/-- `~Connection` -/
theorem sum_work_destroy {c : Nat} {o : Object} (hc : s.objects[c]? = some o)
    (hlive : o.destroyed = false) :
    ((s.objects.set c
        { session := { o.session with connection := o.session.connection.close }
          destroyed := true }).map Object.work).sum + 1 = (s.objects.map Object.work).sum := by
  have hset := sum_map_set_slot Object.work
    { session := { o.session with connection := o.session.connection.close }
      destroyed := true } hc
  have hsame : Session.State.work { o.session with connection := o.session.connection.close } =
      o.session.work := rfl
  simp only [Object.work, hlive, hsame, if_true, Bool.false_eq_true, if_false] at hset
  dsimp only
  omega

/-- **Step**: in a stopped server a step of the threads' own and an answer they
get use up work, and the others bring in no more than they are worth. -/
theorem Step.work {a : Action} (hst : Step setup s a t) (h : (machine setup).Reachable s)
    (hstop : s.server.stopping = true) :
    (if a.own || a.answers then 1 else 0) + t.work setup.workers ≤
      s.work setup.workers + a.brings setup.workers := by
  have hreach := server_reachable h
  have hdrain := ThreadPool.Drain.of_reachable (Server.pool_reachable hreach)
  -- the server does what its own measure says
  have hserver : ∀ {b : Server.Action} {v : Server.State}, Server.Step s.server b v →
      (if b.own then 1 else 0) + v.work setup.workers ≤
        s.server.work setup.workers + b.brings setup.workers := fun hb =>
    hb.work (.of_reachable hreach) (.of_reachable hreach) (hb.not_accepting_of_stopping hstop)
      hdrain.workers_length hdrain.joinable_length
  cases hst with
  | @server b v _ hb =>
      have hwork := hserver (.of_step hb)
      have hspends : (if (Action.server b).own || (Action.server b).answers then 1 else 0) ≤
          (if b.own then 1 else 0) := by
        cases b <;> simp [Action.own, Action.answers, Server.Action.own, Server.Action.waits]
      simp only [State.work, Action.brings]
      omega
  | @accepted fd v _ _ hb =>
      have hwork := hserver (.of_step hb)
      have hnew : Object.work { session := { connection := setup.connection fd } } = 6 := rfl
      simp only [Server.Action.own, Server.Action.brings, if_true] at hwork
      simp only [State.work, Action.answers, Action.brings, Bool.or_true, if_true, List.map_append,
        List.sum_append, List.map_cons, List.map_nil, List.sum_cons, List.sum_nil, hnew]
      omega
  | @handshaken outcome c o session v _ hc hsession hb =>
      have hwork := hserver (.of_step hb)
      have hobject := sum_work_advance (v := v) hc (.of_step hsession) (by simp)
      simp only [Server.Action.own, Server.Action.brings, if_true] at hwork
      simp only [Session.Action.runs, Session.Action.brings, Bool.false_eq_true,
        if_false] at hobject
      simp only [State.work, Action.answers, Action.brings, Bool.or_true, if_true]
      simp only [State.advance] at hobject ⊢
      omega
  | @ran w c move o a session v _ hpooled hc ha hsession hrun =>
      have hobject := sum_work_run (w := w) h v setup.workers hpooled hc ha hsession
      -- the server stays, or it sees the end of `run`
      have hwork : v.work setup.workers ≤ s.server.work setup.workers := by
        rcases run_serverActions hrun with ⟨-, rfl⟩ | ⟨-, hend⟩
        · exact Nat.le_refl _
        · have hend := hserver hend
          simp only [Server.Action.own, Server.Action.brings, if_true] at hend
          omega
      rw [Move.own_or_answers, if_pos rfl]
      simp only [State.work]
      simp only [State.advance] at hobject ⊢
      omega
  | @destroyed c o _ hc hlive =>
      have hobject := sum_work_destroy hc hlive
      dsimp only at hobject
      simp only [State.work, Action.own, Action.brings, Bool.true_or, if_true]
      omega

/-! ## Waiting -/

theorem Move.answers_eq {move : Move} {control : Session.Control} {a : Session.Action} (w : Nat)
    (h : move.action setup control = some a) : (Action.run w move).answers = a.answers := by
  cases move with
  | handle =>
      simp only [Move.action] at h
      split at h
      · cases h
        rfl
      · cases h
  | enter | loopTest | parse | receive | send | leave =>
      cases h
      rfl

/-- **Step**: an owner and connections that wait are left alone, unless the network
answers. -/
theorem Step.waits_on {a : Action} (hst : Step setup s a t) (h : (machine setup).Reachable s)
    (ha : a.answers = false) :
    (s.server.owner.waits = true → t.server.owner = s.server.owner) ∧
      ∀ (c : Nat) (o : Object), s.objects[c]? = some o → o.session.control.waits = true →
        t.objects[c]? = some o := by
  cases hst with
  | @server b v _ hb =>
      have hb' : b.waits = false := ha
      refine ⟨(Server.Step.of_step hb).owner_of_waits ?_ ?_, fun _ _ hc _ => hc⟩
      · rintro accepted rfl
        cases hb'
      · rintro result rfl
        cases hb'
  | accepted | handshaken => cases ha
  | @ran w c move o b session v hw hpooled hc hmove hsession hrun =>
      refine ⟨fun howner => ?_, fun c' o' hc' hwaits => ?_⟩
      · rcases run_serverActions hrun with ⟨-, rfl⟩ | ⟨-, hend⟩
        · rfl
        · exact hend.owner_of_waits (by simp) (by simp) howner
      · have hne : c ≠ c' := by
          rintro rfl
          obtain rfl : o = o' := Option.some.inj (hc.symm.trans hc')
          rw [Move.answers_eq w hmove,
            (Session.Step.of_step hsession).answers_of_waits hwaits] at ha
          cases ha
        exact (List.getElem?_set_ne hne).trans hc'
  | @destroyed c o hreferences hc _ =>
      refine ⟨fun _ => rfl, fun c' o' hc' hwaits => ?_⟩
      have hne : c ≠ c' := by
        rintro rfl
        -- nobody is inside `run`
        have hcontrol := (Consistent.of_reachable h).idle c o' hc'
          (not_pooled_of_unreferenced (.of_reachable (server_reachable h)) hreferences)
        rw [hcontrol] at hwaits
        cases hwaits
      exact (List.getElem?_set_ne hne).trans hc'

/-- **Run**: a thread that waits for the network goes on with the answer, and with
nothing else that the program does. -/
theorem waits_on (h : (machine setup).Reachable s) {as : List Action}
    (hrun : (machine setup).run s as = some t) (hsilent : ∀ a ∈ as, a.answers = false) :
    (s.server.owner.waits = true → t.server.owner = s.server.owner) ∧
      ∀ (c : Nat) (o : Object), s.objects[c]? = some o → o.session.control.waits = true →
        t.objects[c]? = some o := by
  have hboth := Machine.run_along (I := fun u => (machine setup).Reachable u ∧
      (s.server.owner.waits = true → u.server.owner = s.server.owner) ∧
      ∀ (c : Nat) (o : Object), s.objects[c]? = some o → o.session.control.waits = true →
        u.objects[c]? = some o) ?_ hrun (.of_forall hsilent s) ⟨h, fun _ => rfl, fun _ _ hc _ => hc⟩
  · exact hboth.2
  · rintro u a v ⟨hu, howner, hobjects⟩ ha huv
    obtain ⟨howner', hobjects'⟩ := (Step.of_step huv).waits_on hu ha
    refine ⟨hu.step huv, fun hs => ?_, fun c o hc hs => hobjects' c o (hobjects c o hc hs) hs⟩
    exact (howner' (by rw [howner hs]; exact hs)).trans (howner hs)

/-! ## Up to the next wait -/

/-- What the threads have to do until they all wait. -/
def State.workToWait (n : Nat) (s : State) : Nat :=
  7 * s.server.workToWait n + (s.objects.map Object.work).sum

/-- **Step**: whether or not the server has been stopped, a step of the threads'
own uses up work. -/
theorem Step.workToWait {a : Action} (hst : Step setup s a t) (h : (machine setup).Reachable s)
    (hown : a.own = true) :
    t.workToWait setup.workers < s.workToWait setup.workers := by
  have hreach := server_reachable h
  have hdrain := ThreadPool.Drain.of_reachable (Server.pool_reachable hreach)
  have hserver : ∀ {b : Server.Action} {v : Server.State}, Server.Step s.server b v →
      b.own = true → (∀ accepted, b ≠ .accept accepted) → (∀ result, b ≠ .handshake result) →
      v.workToWait setup.workers < s.server.workToWait setup.workers :=
    fun hb hown haccept hhandshake =>
      hb.workToWait (.of_reachable hreach) (.of_reachable hreach) hown haccept hhandshake
        hdrain.workers_length hdrain.joinable_length
  cases hst with
  | @server b v _ hb =>
      simp only [Action.own, Bool.and_eq_true, Bool.not_eq_true'] at hown
      have hwork := hserver (.of_step hb) hown.1 (by rintro accepted rfl; cases hown.2)
        (by rintro result rfl; cases hown.2)
      simp only [State.workToWait]
      omega
  | accepted | handshaken => cases hown
  | @ran w c move o a session v _ hpooled hc ha hsession hrun =>
      have hobject := sum_work_run (w := w) h v setup.workers hpooled hc ha hsession
      rw [Action.brings_of_own _ hown] at hobject
      have hwork : v.workToWait setup.workers ≤ s.server.workToWait setup.workers := by
        rcases run_serverActions hrun with ⟨-, rfl⟩ | ⟨-, hend⟩
        · exact Nat.le_refl _
        · exact (hserver hend rfl (by simp) (by simp)).le
      simp only [State.workToWait]
      simp only [State.advance] at hobject ⊢
      omega
  | @destroyed c o _ hc hlive =>
      have hobject := sum_work_destroy hc hlive
      dsimp only at hobject
      simp only [State.workToWait]
      omega

end System

end HttpsServer
