import HttpsServer.Connection.Buffer

/-!
# HttpsServer.Connection.Containment

What becomes of the requests that `run` begins.

A request that is handled is answered, once and in its turn; a failed write
ends the session; and when `run` returns the connection is closed.  But
`read_request` throws where the request is malformed or over a limit, and
neither that exception nor one of the handler is caught: it leaves `run`
before any answer is written and before `close()`.  So errors are contained
exactly when there are none (`contained_iff`).
-/

namespace HttpsServer.Session

/-! ## Requests and their answers -/

/-- What has become of a request that `run` has begun. -/
inductive Outcome where
  /-- The handler has returned this response. -/
  | answered (response : HttpResponse)
  /-- The handler has thrown. -/
  | threw
  /-- It is malformed, or over a limit. -/
  | malformed

/-- The response that a request with this outcome is to get. -/
def Outcome.AnsweredBy : Outcome → HttpResponse → Prop
  | .answered given, response => response = given
  | .threw, response => response.status = .internalServerError
  | .malformed, response => 400 ≤ response.status.code

/-- The outcomes of the requests begun so far. -/
def outcomes (log : List Event) : List Outcome :=
  log.filterMap fun
    | .handled _ response => some (.answered response)
    | .threw _ => some .threw
    | .rejected => some .malformed
    | _ => none

/-- The requests that the handler has been called with. -/
def calls (log : List Event) : List HttpRequest :=
  log.filterMap fun
    | .handled request _ => some request
    | .threw request => some request
    | _ => none

@[simp] theorem outcomes_append (log more : List Event) :
    outcomes (log ++ more) = outcomes log ++ outcomes more := List.filterMap_append

@[simp] theorem calls_append (log more : List Event) :
    calls (log ++ more) = calls log ++ calls more := List.filterMap_append

/-- The request that is about to be handled. -/
def Control.toHandle : Control → List HttpRequest
  | .handling request => [request]
  | _ => []

/-- The response that is about to be sent, with its request. -/
def Control.toSend : Control → List (HttpRequest × HttpResponse)
  | .sending request response => [(request, response)]
  | _ => []

/-- An exception has left `run`. -/
def Event.escapes : Event → Bool
  | .rejected | .threw _ => true
  | _ => false

/-- A call of `run` is over. -/
def Event.endsRun : Event → Bool
  | .rejected | .threw _ | .returned => true
  | _ => false

/-- A write has failed. -/
def Event.failedWrite : Event → Bool
  | .sent _ _ success _ => !success
  | _ => false

/-- After this nothing is to be read: the request is malformed, or a write has
failed. -/
def Event.last : Event → Bool
  | .rejected => true
  | e => e.failedWrite

/-- The network is read, or a request is begun. -/
def Event.proceeds : Event → Bool
  | .received _ | .parsed _ _ | .rejected => true
  | _ => false

/-- Errors are answered and contained. -/
structure Contained (s : State) : Prop where
  noException : ∀ e ∈ s.log, e.escapes = false
  closed : (∃ e ∈ s.log, e.endsRun = true) →
    s.connection.open = false ∧ s.connection.socket.valid = false
  /-- The handler is called once with each request, in order. -/
  handled : (requests s.log).map Prod.fst = calls s.log ++ s.control.toHandle
  /-- One response is written for each request, in order. -/
  answered : WritesComplete s.log → ∃ written,
    sentBytes s.log = written.flatMap (fun r => r.serialize) ∧
      List.Forall₂ Outcome.AnsweredBy (outcomes s.log)
        (written ++ s.control.toSend.map Prod.snd)
  ended : s.log.Pairwise fun e e' => e.last = true → e'.proceeds = false

/-- No request is malformed or over a limit, and the handler does not throw. -/
def Quiet (s : State) : Action → Prop
  | .parse => requestVerdict s.connection.limits s.connection.readBuffer ≠ .failed
  | .handle result => result ≠ none
  | _ => True

instance decidableQuiet (s : State) : ∀ a, Decidable (Quiet s a)
  | .parse =>
    inferInstanceAs (Decidable
      (requestVerdict s.connection.limits s.connection.readBuffer ≠ .failed))
  | .handle none => isFalse fun h => h rfl
  | .handle (some _) => isTrue nofun
  | .handshake _ | .close | .run | .loopTest | .receive _ | .send _ | .leave => isTrue trivial

/-! ## What holds with or without errors -/

/-- The responses that the handler has returned, with their requests. -/
def given (log : List Event) : List (HttpRequest × HttpResponse) :=
  log.filterMap fun
    | .handled request response => some (request, response)
    | _ => none

@[simp] theorem given_append (log more : List Event) :
    given (log ++ more) = given log ++ given more := List.filterMap_append

/-- Requests and responses are not lost on their way. -/
structure Conserved (s : State) : Prop where
  handled : (requests s.log).map Prod.fst = calls s.log ++ s.control.toHandle
  sent : given s.log = exchanges s.log ++ s.control.toSend

theorem Conserved.step {s t : State} {a : Action} (h : Conserved s) (hst : Step s a t) :
    Conserved t := by
  obtain ⟨hhandled, hsent⟩ := h
  cases hst with
  | @handshaken outcome hs =>
      refine ⟨?_, ?_⟩
      · cases (s.connection.handshake outcome).2 <;>
          simpa [requests, calls, hs, Control.toHandle] using hhandled
      · cases (s.connection.handshake outcome).2 <;>
          simpa [given, exchanges, hs, Control.toSend] using hsent
  | closed hs => exact ⟨hhandled, hsent⟩
  | @sent request response answer success t hs hsend =>
      refine ⟨?_, ?_⟩
      · rw [hs] at hhandled
        dsimp only
        split <;> simpa [requests, calls, Control.toHandle] using hhandled
      · rw [hs] at hsent
        dsimp only
        split <;> simpa [given, exchanges, Control.toSend] using hsent
  | _ hs =>
      rw [hs] at hhandled hsent
      refine ⟨?_, ?_⟩
      · simpa [requests, calls, Control.toHandle] using hhandled
      · simpa [given, exchanges, Control.toSend] using hsent

/-- How a session comes to its end. -/
structure Orderly (s : State) : Prop where
  loop : s.control.inLoop = true → s.connection.open = true
  returned : Event.returned ∈ s.log →
    s.connection.open = false ∧ s.connection.socket.valid = false
  /-- After a failed write `run` returns. -/
  failed : ∀ e ∈ s.log, e.failedWrite = true → s.control = .closing ∨ Event.returned ∈ s.log
  ended : s.log.Pairwise fun e e' => e.failedWrite = true → e'.proceeds = false

/-- Inside the loop `run` has not returned and no write has failed. -/
theorem Orderly.inside {s : State} (h : Orderly s) (hs : s.control.inLoop = true) :
    Event.returned ∉ s.log ∧ ∀ e ∈ s.log, e.failedWrite = false := by
  have hreturned : Event.returned ∉ s.log := fun hmem =>
    absurd (h.loop hs) (by simp [(h.returned hmem).1])
  refine ⟨hreturned, fun e he => ?_⟩
  by_contra hfailed
  cases h.failed e he (by simpa using hfailed) with
  | inl hclosing => simp [hclosing, Control.inLoop] at hs
  | inr hmem => exact hreturned hmem

/-- A step of the loop's body that does not close the connection. -/
theorem Orderly.of_inside {s t : State} {new : List Event} (h : Orderly s)
    (hs : s.control.inLoop = true) (hlog : t.log = s.log ++ new)
    (hopen : t.connection.open = s.connection.open) (hone : new.length ≤ 1)
    (hreturned : Event.returned ∉ new)
    (hfailed : ∀ e ∈ new, e.failedWrite = true → t.control = .closing) : Orderly t := by
  obtain ⟨hnot, hnone⟩ := h.inside hs
  refine ⟨fun _ => hopen.trans (h.loop hs), fun hmem => ?_, fun e he hef => ?_, ?_⟩
  · rw [hlog, List.mem_append] at hmem
    exact absurd hmem (not_or.mpr ⟨hnot, hreturned⟩)
  · rw [hlog, List.mem_append] at he
    cases he with
    | inl hbefore => simp [hnone e hbefore] at hef
    | inr hnew => exact .inl (hfailed e hnew hef)
  · rw [hlog, List.pairwise_append]
    refine ⟨h.ended, ?_, fun e he e' _ hef => absurd hef (by simp [hnone e he])⟩
    cases new with
    | nil => exact .nil
    | cons e rest =>
        obtain rfl : rest = [] := List.length_eq_zero_iff.mp (by simpa using hone)
        exact List.pairwise_singleton _ _

/-- A step outside the loop's body. -/
theorem Orderly.of_outside {s t : State} {new : List Event} (h : Orderly s)
    (hlog : t.log = s.log ++ new) (hnew : ∀ e ∈ new, e.failedWrite = false ∧ e.proceeds = false)
    (hloop : t.control.inLoop = true → t.connection.open = true)
    (hreturned : Event.returned ∈ t.log →
      t.connection.open = false ∧ t.connection.socket.valid = false)
    (hclosing : s.control = .closing → Event.returned ∈ new) : Orderly t := by
  refine ⟨hloop, hreturned, fun e he hef => .inr ?_, ?_⟩
  · rw [hlog, List.mem_append] at he ⊢
    cases he with
    | inl hbefore => exact (h.failed e hbefore hef).symm.imp_right hclosing
    | inr hafter => simp [(hnew e hafter).1] at hef
  · rw [hlog, List.pairwise_append]
    exact ⟨h.ended, List.pairwise_of_forall_mem_list fun e _ e' he' _ => (hnew e' he').2,
      fun e _ e' he' _ => (hnew e' he').2⟩

theorem Orderly.step {s t : State} {a : Action} (h : Orderly s) (hst : Step s a t) : Orderly t := by
  have hloop := open_of_inLoop_step h.loop hst
  cases hst with
  | @handshaken outcome hs =>
      obtain ⟨tls, complete, he⟩ := s.connection.handshake_eq outcome
      refine h.of_outside rfl (fun e hmem => ?_) hloop (fun hmem => ?_) (by simp [hs])
      · obtain ⟨success, rfl⟩ := mem_handshaken hmem
        exact ⟨rfl, rfl⟩
      · rw [he]
        refine h.returned ?_
        simpa using hmem
  | closed hs =>
      exact h.of_outside (List.append_nil _).symm (by simp) hloop (fun _ => ⟨rfl, rfl⟩) (by simp [hs])
  | entered hs | continued hs _ | left hs _ =>
      exact h.of_outside (List.append_nil _).symm (by simp) hloop h.returned (by simp [hs])
  | returned hs =>
      refine h.of_outside rfl (fun e hmem => ?_) hloop (fun _ => ⟨rfl, rfl⟩) (by simp)
      obtain rfl : e = .returned := by simpa using hmem
      exact ⟨rfl, rfl⟩
  | wanting hs hv =>
      exact h.of_inside (by rw [hs]; rfl) (List.append_nil _).symm rfl (Nat.zero_le _) (by simp)
        (by simp)
  | @sent request response answer success t hs hsend =>
      refine h.of_inside (by rw [hs]; rfl) rfl rfl (Nat.le_refl _) (by simp) fun e hmem hef => ?_
      obtain rfl : e = .sent request response success t := by simpa using hmem
      obtain rfl : success = false := by simpa [Event.failedWrite] using hef
      rfl
  | parsed hs _ | rejected hs _ | received hs _ _ | ended hs _ _ | handled hs | threw hs =>
      refine h.of_inside (by rw [hs]; rfl) rfl rfl (Nat.le_refl _) (by simp) fun e hmem hef => ?_
      exact absurd hef (by simp [List.mem_singleton.mp hmem, Event.failedWrite])

theorem Orderly.of_reachable {c : Connection} {s : State} (h : (machine c).Reachable s) :
    Orderly s := by
  refine h.invariant ⟨?_, ?_, ?_, .nil⟩ fun s a t hs hst => hs.step (.of_step hst) <;>
    simp [machine, Control.inLoop]

theorem Conserved.of_reachable {c : Connection} {s : State} (h : (machine c).Reachable s) :
    Conserved s :=
  h.invariant ⟨rfl, rfl⟩ fun _ _ _ hs hst => hs.step (.of_step hst)

/-! ## Containment -/

/-- Without an exception the outcomes are the responses that were given. -/
theorem outcomes_eq {log : List Event} (h : ∀ e ∈ log, e.escapes = false) :
    outcomes log = (given log).map fun x => .answered x.2 := by
  induction log with
  | nil => rfl
  | cons e log ih =>
      have hlog := ih fun e' he' => h e' (List.mem_cons_of_mem e he')
      have he := h e List.mem_cons_self
      rw [← List.singleton_append, outcomes_append, given_append, List.map_append, hlog]
      cases e with
      | rejected | threw request => contradiction
      | _ => rfl

theorem contained_of_noException {c : Connection} {s : State} (h : (machine c).Reachable s)
    (hnone : ∀ e ∈ s.log, e.escapes = false) : Contained s := by
  have horderly := Orderly.of_reachable h
  have hconserved := Conserved.of_reachable h
  refine ⟨hnone, ?_, hconserved.handled, fun hwrites => ?_, ?_⟩
  · rintro ⟨e, he, hends⟩
    have := hnone e he
    cases e with
    | returned => exact horderly.returned he
    | _ => contradiction
  · refine ⟨(exchanges s.log).map Prod.snd, ?_, ?_⟩
    · rw [sentBytes_of_writesComplete hwrites, List.flatMap_map]
    · rw [outcomes_eq hnone, ← List.map_append, ← hconserved.sent, List.forall₂_map_left_iff,
        List.forall₂_map_right_iff]
      exact List.forall₂_same.mpr fun r _ => rfl
  · refine horderly.ended.imp_of_mem fun {e e'} he _ himp hlast => himp ?_
    have := hnone e he
    cases e with
    | rejected => contradiction
    | _ => exact hlast

/-- The events that a quiet step adds are no exceptions. -/
theorem noException_step {s t : State} {a : Action} (h : ∀ e ∈ s.log, e.escapes = false)
    (hq : Quiet s a) (hst : Step s a t) : ∀ e ∈ t.log, e.escapes = false := by
  have hadd : ∀ new : List Event, (∀ e ∈ new, e.escapes = false) →
      ∀ e ∈ s.log ++ new, e.escapes = false :=
    fun new hnew e he => (List.mem_append.mp he).elim (h e) (hnew e)
  cases hst with
  | handshaken hs =>
      refine hadd _ fun e hmem => ?_
      obtain ⟨success, rfl⟩ := mem_handshaken hmem
      rfl
  | rejected hs hv => exact absurd hv hq
  | threw hs => exact absurd rfl hq
  | closed | entered | continued | left | wanting => exact h
  | _ => exact hadd _ (by simp [Event.escapes])

/-- A step that is not quiet is an exception. -/
theorem escapes_of_not_quiet {s t : State} {a : Action} (hq : ¬ Quiet s a) (hst : Step s a t) :
    ∃ e ∈ t.log, e.escapes = true := by
  cases hst with
  | rejected hs hv => exact ⟨.rejected, by simp, rfl⟩
  | @threw request hs => exact ⟨.threw request, by simp, rfl⟩
  | parsed hs hv | wanting hs hv => exact absurd (by simp [Quiet, hv]) hq
  | handled hs => exact absurd (by simp [Quiet]) hq
  | _ => exact absurd trivial hq

/-! ## A call of `run` comes to its end -/

/-- A step of a call of `run` that is under way. -/
def Action.inner : Action → Bool
  | .handshake _ | .close | .run => false
  | _ => true

/-- A bound on the steps that can be taken without another byte: every request
uses up 16 bytes of the buffer, and takes five steps. -/
def State.stepsLeft (s : State) : Nat :=
  match s.control with
  | .outside => 0
  | .closing => 1
  | .receiving => s.connection.readBuffer.length + 2
  | .reading => s.connection.readBuffer.length + 3
  | .looping => s.connection.readBuffer.length + 4
  | .sending _ _ => s.connection.readBuffer.length + 5
  | .handling _ => s.connection.readBuffer.length + 6

theorem stepsLeft_step {s t : State} {a : Action} (hst : Step s a t) (ha : a.inner = true) :
    1 + t.stepsLeft + 3 * (receivedBytes s.log).length ≤
      s.stepsLeft + 3 * (receivedBytes t.log).length := by
  cases hst with
  | handshaken | closed | entered => contradiction
  | parsed hs hv =>
      have := requestVerdict_done hv
      simp only [State.stepsLeft, hs, receivedBytes_append, List.length_drop, List.length_append]
      omega
  | @received answer t hs ht hne =>
      have hpos := List.length_pos_iff.mpr hne
      simp only [State.stepsLeft, hs, receivedBytes_append, List.length_append]
      simp only [receivedBytes, List.flatMap_cons, List.flatMap_nil, List.append_nil]
      omega
  | @sent request response answer success t hs hsend =>
      simp only [State.stepsLeft, hs, receivedBytes_append, List.length_append]
      cases success && s.connection.shouldKeepAlive request <;>
        simp only [if_true, if_false, Bool.false_eq_true] <;> omega
  | continued hs | left hs | wanting hs | rejected hs | ended hs | handled hs | threw hs
  | returned hs =>
      simp only [State.stepsLeft, hs, receivedBytes_append, List.length_append]
      omega

/-- **Termination**: a call of `run` takes finitely many steps for every byte
that it is given. -/
theorem length_le_stepsLeft {c : Connection} {s t : State} {as : List Action}
    (h : (machine c).run s as = some t) (has : ∀ a ∈ as, a.inner = true) :
    as.length + 3 * (receivedBytes s.log).length ≤
      s.stepsLeft + 3 * (receivedBytes t.log).length := by
  have hcount := Machine.run_countP_le (w := 1) (p := fun _ => true) (l := State.stepsLeft)
    (r := fun u => 3 * (receivedBytes u.log).length)
    (fun u a v ha hst => stepsLeft_step (.of_step hst) ha) h has
  rw [List.countP_true, Nat.one_mul] at hcount
  omega

/-- A call of `run` is never stuck. -/
theorem exists_inner_step {c : Connection} {s : State} (hs : s.control ≠ .outside) :
    ∃ a : Action, a.inner = true ∧ ((machine c).step s a).isSome = true := by
  cases hc : s.control with
  | outside => exact absurd hc hs
  | looping => exact ⟨.loopTest, rfl, by simp [machine, State.step, hc]⟩
  | reading => exact ⟨.parse, rfl, by simp [machine, State.step, hc]⟩
  | receiving => exact ⟨.receive .failed, rfl, by simp [machine, State.step, hc]⟩
  | handling request => exact ⟨.handle none, rfl, by simp [machine, State.step, hc]⟩
  | sending request response => exact ⟨.send .failed, rfl, by simp [machine, State.step, hc]⟩
  | closing => exact ⟨.leave, rfl, by simp [machine, State.step, hc]⟩

/-- **Errors are contained exactly where there are none**: in every run the
connection is closed and every request answered, as claimed of errors too, as
long as no request is malformed or over a limit and no handler throws; and
`run` takes a bounded number of steps for the bytes it is given. -/
theorem contained_iff {c : Connection} {as : List Action} {s : State}
    (h : (machine c).run (machine c).init as = some s) :
    ((∀ t, (machine c).Passes (machine c).init as t → Contained t) ↔
      (machine c).Along Quiet (machine c).init as) ∧
    (s.control ≠ .outside →
      ∃ a : Action, a.inner = true ∧ ((machine c).step s a).isSome = true) ∧
    ∀ bs t, (machine c).run s bs = some t → (∀ b ∈ bs, b.inner = true) →
      bs.length + 3 * (receivedBytes s.log).length ≤
        s.stepsLeft + 3 * (receivedBytes t.log).length := by
  refine ⟨?_, exists_inner_step, fun bs t hrun hbs => length_le_stepsLeft hrun hbs⟩
  refine Machine.passes_iff_along (I := fun _ => True)
    (J := fun u => (machine c).Reachable u ∧ ∀ e ∈ u.log, e.escapes = false)
    (fun _ _ _ _ _ => trivial) ?_ (fun u hu => contained_of_noException hu.1 hu.2) ?_ h trivial
    ⟨.init, by simp [machine]⟩
  · intro u a v hu hq hst
    exact ⟨hu.1.step hst, noException_step hu.2 hq (.of_step hst)⟩
  · intro u a t _ _ hst hnot hc
    obtain ⟨e, he, hescapes⟩ := escapes_of_not_quiet hnot (.of_step hst)
    simp [hc.noException e he] at hescapes

/-- A request that is answered and ends the session. -/
theorem contained_iff_close :
    ∃ s, (machine (.make ⟨3⟩ false {} 0)).run { connection := .make ⟨3⟩ false {} 0 }
        [.run, .loopTest, .parse, .receive (.data (ascii "GET / HTTP/1.1\r\nHost: a\r\n\r\n")),
          .parse, .handle (some (.ok [])), .send (.taken 200), .leave] = some s ∧ Contained s := by
  obtain ⟨s, hs⟩ := Option.isSome_iff_exists.mp (show
    ((machine (.make ⟨3⟩ false {} 0)).run (machine (.make ⟨3⟩ false {} 0)).init
      [.run, .loopTest, .parse, .receive (.data (ascii "GET / HTTP/1.1\r\nHost: a\r\n\r\n")),
        .parse, .handle (some (.ok [])), .send (.taken 200), .leave]).isSome = true
    by decide +kernel)
  exact ⟨s, hs, (contained_iff hs).1.mpr (by decide +kernel) s (.of_run hs)⟩

/-- A malformed request: the exception of `read_request` leaves `run`. -/
theorem not_contained_malformed :
    ¬ ∀ (c : Connection) (as : List Action) (s : State),
      (machine c).run (machine c).init as = some s →
        ∀ t, (machine c).Passes (machine c).init as t → Contained t := by
  intro h
  obtain ⟨s, hs, hescapes⟩ := Option.map_eq_some_iff.mp (show
    ((machine (.make ⟨3⟩ false {} 5)).run (machine (.make ⟨3⟩ false {} 5)).init
      [.run, .loopTest, .parse, .receive (.data (ascii "BAD\r\n\r\n")), .parse]).map
      (·.log.any Event.escapes) = some true by decide +kernel)
  obtain ⟨e, he, hescapes⟩ := List.any_eq_true.mp hescapes
  have hcontained := h _ _ s hs s (.of_run hs)
  simp [hcontained.noException e he] at hescapes

end HttpsServer.Session
