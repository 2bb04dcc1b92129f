import HttpsServer.Connection.Buffer
import HttpsServer.Connection.Containment

/-!
# HttpsServer.Connection.Ending

Why a connection comes to its end.

`run` leaves its loop where the stream ends, a write fails or the connection is
not to be kept, and an exception leaves it from anywhere.  There is no other way
out (`Reason`), and the stream is found to end only where `parse` has asked for
more.
-/

namespace HttpsServer.Session

/-- What may have ended the loop of `run`. -/
inductive Reason (s : State) : Prop
  /-- The connection was closed before anything was read. -/
  | unread : receivedBytes s.log = [] → Reason s
  | exception {e : Event} : e ∈ s.log → e.escapes = true → Reason s
  | writeFailed {e : Event} : e ∈ s.log → e.failedWrite = true → Reason s
  /-- No bytes have come where `parse` has asked for more. -/
  | streamEnded : requestVerdict s.connection.limits s.connection.readBuffer = .more → Reason s
  | notKept {x : HttpRequest × HttpResponse} : (exchanges s.log).getLast? = some x →
      s.connection.shouldKeepAlive x.1 = false → Reason s

/-- What a step outside the loop leaves of a reason. -/
theorem Reason.append {s t : State} {new : List Event} (h : Reason s) (hlog : t.log = s.log ++ new)
    (hreceived : receivedBytes new = []) (hexchanges : exchanges new = [])
    (hlimits : t.connection.limits = s.connection.limits)
    (hbuffer : t.connection.readBuffer = s.connection.readBuffer)
    (hkept : ∀ request, t.connection.shouldKeepAlive request =
      s.connection.shouldKeepAlive request) : Reason t := by
  have hmem : ∀ {e : Event}, e ∈ s.log → e ∈ t.log := fun he => hlog ▸ List.mem_append_left _ he
  cases h with
  | unread hnone => exact .unread (by rw [hlog, receivedBytes_append, hnone, hreceived]; rfl)
  | exception he hescapes => exact .exception (hmem he) hescapes
  | writeFailed he hfailed => exact .writeFailed (hmem he) hfailed
  | streamEnded hmore => exact .streamEnded (by rw [hlimits, hbuffer, hmore])
  | notKept hlast hnot =>
      refine .notKept ?_ ((hkept _).trans hnot)
      rw [hlog, exchanges_append, hexchanges, List.append_nil, hlast]

/-- The ways of a session out of its loop. -/
structure Ending (s : State) : Prop where
  waiting : s.control = .receiving →
    requestVerdict s.connection.limits s.connection.readBuffer = .more
  /-- Outside, `run` has not begun to read, or it is over. -/
  outside : s.control = .outside ∨ s.control = .looping ∧ s.connection.open = false →
    receivedBytes s.log = [] ∨ Event.returned ∈ s.log ∨ ∃ e ∈ s.log, e.escapes = true
  reason : Event.returned ∈ s.log ∨ s.control = .closing → Reason s

/-- A step into the loop or inside it. -/
theorem Ending.of_inLoop {s t : State} {new : List Event} (hnot : Event.returned ∉ s.log)
    (hlog : t.log = s.log ++ new) (hnew : Event.returned ∉ new) (ht : t.control.inLoop = true)
    (hwaiting : t.control = .receiving →
      requestVerdict t.connection.limits t.connection.readBuffer = .more) : Ending t where
  waiting := hwaiting
  outside hout := by
    rcases hout with hout | ⟨hout, -⟩ <;> rw [hout] at ht <;> cases ht
  reason hover := by
    rcases hover with hmem | hclosing
    · rw [hlog, List.mem_append] at hmem
      exact absurd hmem (not_or.2 ⟨hnot, hnew⟩)
    · rw [hclosing] at ht
      cases ht

/-- A step out of the loop. -/
theorem Ending.of_reason {t : State} (h : Reason t) (ht : t.control = .closing) : Ending t where
  waiting hwaiting := by
    rw [ht] at hwaiting
    cases hwaiting
  outside hout := by
    rcases hout with hout | ⟨hout, -⟩ <;> rw [ht] at hout <;> cases hout
  reason _ := h

/-- An exception leaves `run`. -/
theorem Ending.of_exception {t : State} {e : Event} (he : e ∈ t.log) (hescapes : e.escapes = true)
    (ht : t.control = .outside) : Ending t where
  waiting hwaiting := by
    rw [ht] at hwaiting
    cases hwaiting
  outside _ := .inr (.inr ⟨e, he, hescapes⟩)
  reason _ := .exception he hescapes

/-- A step outside the loop. -/
theorem Ending.of_outside {s t : State} {new : List Event} (h : Ending s)
    (hlog : t.log = s.log ++ new) (hreceived : receivedBytes new = [])
    (hexchanges : exchanges new = [])
    (hlimits : t.connection.limits = s.connection.limits)
    (hbuffer : t.connection.readBuffer = s.connection.readBuffer)
    (hkept : ∀ request, t.connection.shouldKeepAlive request =
      s.connection.shouldKeepAlive request)
    (ht : t.control = .outside ∨ t.control = .looping)
    (hs : s.control = .outside ∨ s.control = .closing ∧ Event.returned ∈ new)
    (hnew : Event.returned ∈ new → s.control = .closing) : Ending t where
  waiting hwaiting := by
    rcases ht with ht | ht <;> rw [hwaiting] at ht <;> cases ht
  outside _ := by
    rw [hlog]
    rcases hs with hs | ⟨-, hmem⟩
    · rcases h.outside (.inl hs) with hnone | hmem | ⟨e, he, hescapes⟩
      · exact .inl (by rw [receivedBytes_append, hnone, hreceived]; rfl)
      · exact .inr (.inl (List.mem_append_left _ hmem))
      · exact .inr (.inr ⟨e, List.mem_append_left _ he, hescapes⟩)
    · exact .inr (.inl (List.mem_append_right _ hmem))
  reason hover := by
    have hreason : Reason s := by
      rcases hover with hmem | hclosing
      · rw [hlog, List.mem_append] at hmem
        exact h.reason (hmem.imp_right hnew)
      · rcases ht with ht | ht <;> rw [hclosing] at ht <;> cases ht
    exact hreason.append hlog hreceived hexchanges hlimits hbuffer hkept

/-- A step keeps `Ending`. -/
theorem Ending.step {s t : State} {a : Action} (h : Ending s) (horderly : Orderly s)
    (hst : Step s a t) : Ending t := by
  cases hst with
  | @handshaken outcome hs =>
      obtain ⟨tls, complete, he⟩ := s.connection.handshake_eq outcome
      refine h.of_outside rfl ?_ ?_ (by rw [he]) (by rw [he]) (fun _ => by rw [he]; rfl) (.inl hs)
        (.inl hs) fun hmem => ?_
      · cases (s.connection.handshake outcome).2 <;> rfl
      · cases (s.connection.handshake outcome).2 <;> rfl
      · obtain ⟨success, hevent⟩ := mem_handshaken hmem
        cases hevent
  | closed hs =>
      exact h.of_outside (List.append_nil _).symm rfl rfl rfl rfl (fun _ => rfl) (.inl hs) (.inl hs)
        fun hmem => absurd hmem List.not_mem_nil
  | entered hs =>
      exact h.of_outside (List.append_nil _).symm rfl rfl rfl rfl (fun _ => rfl) (.inr rfl) (.inl hs)
        fun hmem => absurd hmem List.not_mem_nil
  | returned hs =>
      exact h.of_outside rfl rfl rfl rfl rfl (fun _ => rfl) (.inl rfl)
        (.inr ⟨hs, List.mem_cons_self⟩) fun _ => hs
  | continued hs ho =>
      have hnot : Event.returned ∉ s.log := fun hmem => by
        rw [(horderly.returned hmem).1] at ho
        cases ho
      exact .of_inLoop hnot (List.append_nil _).symm List.not_mem_nil rfl (by simp)
  | left hs ho =>
      have hreason : Reason s := by
        rcases h.outside (.inr ⟨hs, ho⟩) with hnone | hmem | ⟨e, he, hescapes⟩
        · exact .unread hnone
        · exact h.reason (.inl hmem)
        · exact .exception he hescapes
      exact .of_reason (hreason.append (List.append_nil _).symm rfl rfl rfl rfl fun _ => rfl) rfl
  | wanting hs hv =>
      exact .of_inLoop (horderly.inside (by rw [hs]; rfl)).1 (List.append_nil _).symm
        List.not_mem_nil rfl fun _ => hv
  | parsed hs _ | received hs _ _ | handled hs =>
      exact .of_inLoop (horderly.inside (by rw [hs]; rfl)).1 rfl (by simp) rfl (by simp)
  | rejected | threw => exact .of_exception List.mem_concat_self rfl rfl
  | ended hs _ _ => exact .of_reason (.streamEnded (h.waiting hs)) rfl
  | @sent request response answer success transfer hs _ =>
      cases hkeep : success && s.connection.shouldKeepAlive request with
      | true =>
          have hnot := (horderly.inside (by rw [hs]; rfl)).1
          have hopen := horderly.loop (by rw [hs]; rfl)
          refine ⟨nofun, fun hout => ?_, fun hover => ?_⟩
          · rcases hout with hout | ⟨-, hclosed⟩
            · cases hout
            · rw [hopen] at hclosed
              cases hclosed
          · rcases hover with hmem | hclosing
            · exact absurd hmem (by simpa using hnot)
            · cases hclosing
      | false =>
          refine .of_reason ?_ rfl
          rcases Bool.and_eq_false_iff.1 hkeep with hfailed | hnot
          · exact .writeFailed List.mem_concat_self (by rw [Event.failedWrite, hfailed]; rfl)
          · refine .notKept (x := (request, response)) ?_ hnot
            simp [exchanges]

/-- Every reachable session has `Ending`. -/
theorem Ending.of_reachable {c : Connection} {s : State} (h : (machine c).Reachable s) :
    Ending s := by
  have hboth : (machine c).Reachable s ∧ Ending s := by
    refine h.invariant (I := fun s => (machine c).Reachable s ∧ Ending s)
      ⟨.init, nofun, fun _ => .inl rfl, fun hover => ?_⟩ fun s a t hs hst => ?_
    · rcases hover with hmem | hclosing
      · cases hmem
      · cases hclosing
    · exact ⟨hs.1.step hst, hs.2.step (.of_reachable hs.1) (.of_step hst)⟩
  exact hboth.2

/-- Behind the end of `run` nothing is about to be handled or sent. -/
theorem Orderly.idle {s : State} (h : Orderly s) (hover : Event.returned ∈ s.log) :
    s.control.toHandle = [] ∧ s.control.toSend = [] := by
  have hinside := fun hs => (h.inside hs).1 hover
  cases hs : s.control with
  | outside | looping | closing | reading | receiving => exact ⟨rfl, rfl⟩
  | handling | sending => exact absurd (by rw [hs]; rfl) hinside

/-- A handler that does not throw returns. -/
theorem calls_of_not_threw {log : List Event} (h : ∀ request, Event.threw request ∉ log) :
    calls log = (given log).map Prod.fst := by
  induction log with
  | nil => rfl
  | cons e log ih =>
      have hlog := ih fun request hmem => h request (List.mem_cons_of_mem e hmem)
      rw [← List.singleton_append, calls_append, given_append, List.map_append, hlog]
      cases e with
      | threw request => exact absurd List.mem_cons_self (h request)
      | _ => rfl

end HttpsServer.Session
