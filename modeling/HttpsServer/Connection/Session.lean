import HttpsServer.Connection.Operations
import HttpsServer.Machine

/-!
# HttpsServer.Connection.Session

A connection as a machine: its public operations `handshake`, `run` and
`close`, in any order and any number, with `run` and `read_request` taken one
step at a time (`connection.cpp`).

What the network, OpenSSL and the handler do is chosen by the actions, so that
a statement about every run of the machine is one about every stream, every
cutting of it into reads, every handler and every result of a write.  The
state keeps a log of what has happened; the program does not read it.
-/

namespace HttpsServer.Session

/-- Where the thread that uses the connection stands. -/
inductive Control where
  /-- Outside every member function. -/
  | outside
  /-- In `run`, at the condition of the loop. -/
  | looping
  /-- In `read_request`, before `parser_.parse(read_buffer_)`. -/
  | reading
  /-- In `read_request`, before `read(buffer, sizeof(buffer))`. -/
  | receiving
  /-- In `run`, before `handler(*request)`. -/
  | handling (request : HttpRequest)
  /-- In `run`, before `send_response(response)`. -/
  | sending (request : HttpRequest) (response : HttpResponse)
  /-- In `run`, before `close()`. -/
  | closing

/-- What has happened to the connection. -/
inductive Event where
  /-- `handshake` has returned. -/
  | handshaken (success : Bool)
  /-- `read` has returned. -/
  | received (transfer : Transfer)
  /-- `read_request` has taken a request from these bytes. -/
  | parsed (request : HttpRequest) (slice : Bytes)
  /-- `read_request` has thrown, and the exception has left `run`. -/
  | rejected
  /-- The handler has returned. -/
  | handled (request : HttpRequest) (response : HttpResponse)
  /-- The handler has thrown, and the exception has left `run`. -/
  | threw (request : HttpRequest)
  /-- `send_response` has returned. -/
  | sent (request : HttpRequest) (response : HttpResponse) (success : Bool) (transfer : Transfer)
  /-- `run` has returned. -/
  | returned

structure State where
  connection : Connection
  control : Control := .outside
  log : List Event := []

inductive Action where
  /-- `handshake()` is called. -/
  | handshake (outcome : HandshakeOutcome)
  /-- `close()` is called. -/
  | close
  /-- `run(handler)` is called. -/
  | run
  /-- `while (open_)` -/
  | loopTest
  /-- `parser_.parse(read_buffer_)`, and what `read_request` does with the result. -/
  | parse
  /-- `read(buffer, sizeof(buffer))` -/
  | receive (answer : RecvAnswer)
  /-- `handler(*request)` returns a response, or throws. -/
  | handle (result : Option HttpResponse)
  /-- `send_response(response)`, and what `run` does with its result. -/
  | send (answer : SendAnswer)
  /-- `close()` at the end of `run`. -/
  | leave

namespace State

variable (s : State)

/-- `sizeof(buffer)` in `read_request`. -/
def bufferSize : Nat := 4096

/-- One iteration of `read_request`, up to its call of `read`. -/
def parse : State :=
  match requestVerdict s.connection.limits s.connection.readBuffer with
  | .done request consumed =>
    { s with
      connection := { s.connection with readBuffer := s.connection.readBuffer.drop consumed }
      control := .handling request
      log := s.log ++ [.parsed request (s.connection.readBuffer.take consumed)] }
  | .more => { s with control := .receiving }
  | .failed => { s with control := .outside, log := s.log ++ [.rejected] }

/-- The rest of the iteration: `read_request` returns `nullopt` when no byte
has come. -/
def receive (answer : RecvAnswer) : State :=
  let transfer := s.connection.read bufferSize answer
  if transfer.count ≤ 0 then
    { s with control := .closing, log := s.log ++ [.received transfer] }
  else
    { s with
      connection := { s.connection with readBuffer := s.connection.readBuffer ++ transfer.bytes }
      control := .reading
      log := s.log ++ [.received transfer] }

def handle (request : HttpRequest) : Option HttpResponse → State
  | some response =>
    { s with control := .sending request response, log := s.log ++ [.handled request response] }
  | none => { s with control := .outside, log := s.log ++ [.threw request] }

/-- `run` goes on after a successful send, if the connection is to be kept. -/
def send (request : HttpRequest) (response : HttpResponse) (answer : SendAnswer) : State :=
  let (success, transfer) := s.connection.sendResponse response answer
  { s with
    control := if success && s.connection.shouldKeepAlive request then .looping else .closing
    log := s.log ++ [.sent request response success transfer] }

/-- One step; `none` where the control is elsewhere. -/
def step (a : Action) : Option State :=
  match s.control, a with
  | .outside, .handshake outcome =>
    let (connection, result) := s.connection.handshake outcome
    some { s with
      connection := connection
      log := s.log ++ (result.map Event.handshaken).toList }
  | .outside, .close => some { s with connection := s.connection.close }
  | .outside, .run => some { s with control := .looping }
  | .looping, .loopTest =>
    some { s with control := if s.connection.open then .reading else .closing }
  | .reading, .parse => some s.parse
  | .receiving, .receive answer => some (s.receive answer)
  | .handling request, .handle result => some (s.handle request result)
  | .sending request response, .send answer => some (s.send request response answer)
  | .closing, .leave =>
    some { s with
      connection := s.connection.close
      control := .outside
      log := s.log ++ [.returned] }
  | _, _ => none

end State

/-- The sessions of a connection. -/
def machine (c : Connection) : Machine State Action where
  init := { connection := c }
  step := State.step

/-! ## What a step can do -/

/-- The steps of a session, one constructor for each thing that can happen. -/
inductive Step (s : State) : Action → State → Prop
  | handshaken {outcome : HandshakeOutcome} : s.control = .outside →
      Step s (.handshake outcome)
        { s with
          connection := (s.connection.handshake outcome).1
          log := s.log ++ ((s.connection.handshake outcome).2.map Event.handshaken).toList }
  | closed : s.control = .outside → Step s .close { s with connection := s.connection.close }
  | entered : s.control = .outside → Step s .run { s with control := .looping }
  | continued : s.control = .looping → s.connection.open = true →
      Step s .loopTest { s with control := .reading }
  | left : s.control = .looping → s.connection.open = false →
      Step s .loopTest { s with control := .closing }
  | parsed {request : HttpRequest} {consumed : Nat} : s.control = .reading →
      requestVerdict s.connection.limits s.connection.readBuffer = .done request consumed →
      Step s .parse
        { s with
          connection := { s.connection with readBuffer := s.connection.readBuffer.drop consumed }
          control := .handling request
          log := s.log ++ [.parsed request (s.connection.readBuffer.take consumed)] }
  | wanting : s.control = .reading →
      requestVerdict s.connection.limits s.connection.readBuffer = .more →
      Step s .parse { s with control := .receiving }
  | rejected : s.control = .reading →
      requestVerdict s.connection.limits s.connection.readBuffer = .failed →
      Step s .parse { s with control := .outside, log := s.log ++ [.rejected] }
  | received {answer : RecvAnswer} {t : Transfer} : s.control = .receiving →
      s.connection.read State.bufferSize answer = t → t.bytes ≠ [] →
      Step s (.receive answer)
        { s with
          connection := { s.connection with readBuffer := s.connection.readBuffer ++ t.bytes }
          control := .reading
          log := s.log ++ [.received t] }
  | ended {answer : RecvAnswer} {t : Transfer} : s.control = .receiving →
      s.connection.read State.bufferSize answer = t → t.bytes = [] →
      Step s (.receive answer) { s with control := .closing, log := s.log ++ [.received t] }
  | handled {request : HttpRequest} {response : HttpResponse} : s.control = .handling request →
      Step s (.handle (some response))
        { s with
          control := .sending request response
          log := s.log ++ [.handled request response] }
  | threw {request : HttpRequest} : s.control = .handling request →
      Step s (.handle none) { s with control := .outside, log := s.log ++ [.threw request] }
  | sent {request : HttpRequest} {response : HttpResponse} {answer : SendAnswer} {success : Bool}
      {t : Transfer} : s.control = .sending request response →
      s.connection.sendResponse response answer = (success, t) →
      Step s (.send answer)
        { s with
          control :=
            if success && s.connection.shouldKeepAlive request then .looping else .closing
          log := s.log ++ [.sent request response success t] }
  | returned : s.control = .closing →
      Step s .leave
        { s with
          connection := s.connection.close
          control := .outside
          log := s.log ++ [.returned] }

/-- `parse` in `read_request`, by the verdict on the buffer. -/
theorem Step.of_parse {s : State} (hs : s.control = .reading) : Step s .parse s.parse := by
  unfold State.parse
  cases hv : requestVerdict s.connection.limits s.connection.readBuffer with
  | done request consumed => exact .parsed hs hv
  | more => exact .wanting hs hv
  | failed => exact .rejected hs hv

/-- `read` in `read_request` delivers bytes, or the request is given up. -/
theorem Step.of_receive {s : State} (hs : s.control = .receiving) (answer : RecvAnswer) :
    Step s (.receive answer) (s.receive answer) := by
  have hpos := (s.connection.read State.bufferSize answer).count_pos_iff
  unfold State.receive
  dsimp only
  split
  · next hcount => exact .ended hs rfl (by by_contra hne; have := hpos.mpr hne; omega)
  · next hcount => exact .received hs rfl (hpos.mp (by omega))

/-- **Inversion**: a step is one of the things that can happen. -/
theorem Step.of_step {s t : State} {a : Action} (h : s.step a = some t) : Step s a t := by
  unfold State.step at h
  split at h
  · next hs =>
    cases h
    exact .handshaken hs
  · next hs =>
    cases h
    exact .closed hs
  · next hs =>
    cases h
    exact .entered hs
  · next hs =>
    cases h
    cases ho : s.connection.open with
    | true => exact .continued hs ho
    | false => exact .left hs ho
  · next hs =>
    cases h
    exact .of_parse hs
  · next answer hs =>
    cases h
    exact .of_receive hs answer
  · next request result hs =>
    cases h
    cases result with
    | some response => exact .handled hs
    | none => exact .threw hs
  · next request response answer hs =>
    cases h
    exact .sent hs rfl
  · next hs =>
    cases h
    exact .returned hs
  · cases h

/-! ## read_request, step by step -/

/-- The step of the machine that `parse` is. -/
theorem step_parse {c : Connection} {s : State} (hs : s.control = .reading) :
    (machine c).step s .parse = some s.parse := by simp [machine, State.step, hs]

theorem step_receive {c : Connection} {s : State} (hs : s.control = .receiving)
    (answer : RecvAnswer) : (machine c).step s (.receive answer) = some (s.receive answer) := by
  simp [machine, State.step, hs]

/-- A read without bytes gives the request up. -/
theorem receive_of_nil {s : State} {answer : RecvAnswer}
    (h : (s.connection.read State.bufferSize answer).bytes = []) :
    (s.receive answer).control = .closing ∧ (s.receive answer).connection = s.connection := by
  have hpos := (s.connection.read State.bufferSize answer).count_pos_iff
  unfold State.receive
  dsimp only
  rw [if_pos (by by_contra hcount; exact hpos.mp (by omega) h)]
  exact ⟨rfl, rfl⟩

/-- A read with bytes appends them to the buffer. -/
theorem receive_of_ne_nil {s : State} {answer : RecvAnswer}
    (h : (s.connection.read State.bufferSize answer).bytes ≠ []) :
    (s.receive answer).control = .reading ∧
      (s.receive answer).connection = { s.connection with
        readBuffer := s.connection.readBuffer ++
          (s.connection.read State.bufferSize answer).bytes } := by
  have hpos := (s.connection.read State.bufferSize answer).count_pos_iff
  unfold State.receive
  dsimp only
  rw [if_neg (by have := hpos.mpr h; omega)]
  exact ⟨rfl, rfl⟩

/-- The state is the one in which a call of `read_request` with this outcome
leaves the connection. -/
def LeftBy (t : State) : ReadOutcome → Prop
  | .returned (some request) readBuffer _ =>
    t.control = .handling request ∧ t.connection.readBuffer = readBuffer
  | .returned none readBuffer _ => t.control = .closing ∧ t.connection.readBuffer = readBuffer
  | .threw => t.control = .outside

theorem leftBy_parse {s : State} (reads : List Bytes)
    (hv : requestVerdict s.connection.limits s.connection.readBuffer ≠ .more) :
    LeftBy s.parse (readRequest s.connection.limits s.connection.readBuffer reads) := by
  rw [readRequest_eq]
  unfold State.parse
  cases hverdict : requestVerdict s.connection.limits s.connection.readBuffer with
  | done request consumed => exact ⟨rfl, rfl⟩
  | more => exact absurd hverdict hv
  | failed => rfl

/-- **A call of `readRequest` is a run of the machine**, on a transport that
delivers these reads and fails after them. -/
theorem exists_run_readRequest {c : Connection} {s : State} (hs : s.control = .reading)
    (hready : s.connection.Ready) {reads : List Bytes}
    (hreads : ∀ buffer ∈ reads, buffer.length ≤ State.bufferSize) :
    ∃ as t, (machine c).run s as = some t ∧
      LeftBy t (readRequest s.connection.limits s.connection.readBuffer reads) := by
  -- on the reads that are left: `parse` asks for the next one, or it is done
  induction reads generalizing s with
  | nil =>
      by_cases hv : requestVerdict s.connection.limits s.connection.readBuffer = .more
      · have hparse : s.parse = { s with control := .receiving } := by simp [State.parse, hv]
        have hwaiting : s.parse.control = .receiving := by rw [hparse]
        have hgiven := receive_of_nil (s := s.parse) (Connection.bytes_read_failed _ _)
        refine ⟨[.parse, .receive .failed], s.parse.receive .failed,
          by simp [Machine.run, step_parse hs, step_receive hwaiting], ?_⟩
        rw [readRequest_eq, hv]
        exact ⟨hgiven.1, by rw [hgiven.2, hparse]⟩
      · exact ⟨[.parse], s.parse, by simp [Machine.run, step_parse hs], leftBy_parse [] hv⟩
  | cons buffer reads ih =>
      by_cases hv : requestVerdict s.connection.limits s.connection.readBuffer = .more
      · have hparse : s.parse = { s with control := .receiving } := by simp [State.parse, hv]
        have hwaiting : s.parse.control = .receiving := by rw [hparse]
        have hbytes : (s.parse.connection.read State.bufferSize (.data buffer)).bytes = buffer := by
          rw [hparse]
          exact hready.bytes_read (hreads buffer (by simp))
        rw [readRequest_eq, hv]
        by_cases hnil : buffer = []
        · have hgiven := receive_of_nil (hbytes.trans hnil)
          refine ⟨[.parse, .receive (.data buffer)], s.parse.receive (.data buffer),
            by simp [Machine.run, step_parse hs, step_receive hwaiting], ?_⟩
          dsimp only
          rw [if_pos hnil]
          exact ⟨hgiven.1, by rw [hgiven.2, hparse]⟩
        · obtain ⟨hreading, hconnection⟩ := receive_of_ne_nil (hbytes ▸ hnil)
          rw [hbytes, hparse] at hconnection
          obtain ⟨as, t, hrun, hleft⟩ := ih (s := s.parse.receive (.data buffer)) hreading
            (by rw [hparse, hconnection]; exact hready) fun b hb => hreads b (by simp [hb])
          refine ⟨.parse :: .receive (.data buffer) :: as, t,
            by simp [Machine.run, step_parse hs, step_receive hwaiting, hrun], ?_⟩
          dsimp only
          rw [if_neg hnil]
          rwa [hparse, hconnection] at hleft
      · exact ⟨[.parse], s.parse, by simp [Machine.run, step_parse hs], leftBy_parse _ hv⟩

/-! ## Inside the loop -/

/-- The control is in the body of the loop of `run`. -/
def Control.inLoop : Control → Bool
  | .reading | .receiving | .handling _ | .sending _ _ => true
  | .outside | .looping | .closing => false

theorem open_of_inLoop_step {s t : State} {a : Action}
    (h : s.control.inLoop = true → s.connection.open = true) (hst : Step s a t) :
    t.control.inLoop = true → t.connection.open = true := by
  cases hst with
  | @handshaken outcome hs =>
      obtain ⟨tls, complete, he⟩ := s.connection.handshake_eq outcome
      rw [he]
      exact h
  | closed hs =>
      rw [hs]
      exact fun h => Bool.noConfusion h
  | continued hs ho => exact fun _ => ho
  | parsed hs _ | wanting hs _ | received hs _ _ | handled hs => exact fun _ => h (by rw [hs]; rfl)
  | @sent request response answer success t hs hsend =>
      dsimp only
      split <;> exact fun h => Bool.noConfusion h
  | entered | left | rejected | ended | threw | returned => exact fun h => Bool.noConfusion h

/-- A connection is not closed while its loop is at work. -/
theorem open_of_inLoop {c : Connection} {s : State} (h : (machine c).Reachable s)
    (hs : s.control.inLoop = true) : s.connection.open = true :=
  h.invariant (I := fun s => s.control.inLoop = true → s.connection.open = true)
    (fun h => Bool.noConfusion h)
    (fun _ _ _ hs hst => open_of_inLoop_step hs (.of_step hst)) hs

/-! ## Reading the log -/

/-- What has happened has happened. -/
theorem log_prefix_step {s t : State} {a : Action} (hst : Step s a t) : s.log <+: t.log := by
  cases hst with
  | closed | entered | continued | left | wanting => exact List.prefix_refl _
  | _ => exact List.prefix_append _ _

theorem log_prefix_of_reaches {c : Connection} {s t : State} (h : (machine c).Reaches s t) :
    s.log <+: t.log :=
  h.preserves (I := fun u => s.log <+: u.log)
    (fun _ _ _ hu hst => hu.trans (log_prefix_step (.of_step hst))) (List.prefix_refl _)

/-- The bytes received so far. -/
def receivedBytes (log : List Event) : Bytes :=
  log.flatMap fun
    | .received t => t.bytes
    | _ => []

/-- The requests that `read_request` has returned, with the bytes each was
taken from. -/
def requests (log : List Event) : List (HttpRequest × Bytes) :=
  log.filterMap fun
    | .parsed request slice => some (request, slice)
    | _ => none

/-- The bytes that the transport has taken so far. -/
def sentBytes (log : List Event) : Bytes :=
  log.flatMap fun
    | .sent _ _ _ t => t.bytes
    | _ => []

/-- The responses that were sent, with their requests. -/
def exchanges (log : List Event) : List (HttpRequest × HttpResponse) :=
  log.filterMap fun
    | .sent request response _ _ => some (request, response)
    | _ => none

/-- The transport has taken the whole response, if this is a write. -/
def Event.writesWhole : Event → Prop
  | .sent _ response success t => success = true ∧ t.bytes = response.serialize
  | _ => True

instance decidableWritesWhole : ∀ e : Event, Decidable e.writesWhole
  | .sent _ response success t =>
    inferInstanceAs (Decidable (success = true ∧ t.bytes = response.serialize))
  | .handshaken _ | .received _ | .parsed _ _ | .rejected | .handled _ _ | .threw _ | .returned =>
    isTrue trivial

/-- Every write so far was complete. -/
def WritesComplete (log : List Event) : Prop := ∀ e ∈ log, e.writesWhole

instance (log : List Event) : Decidable (WritesComplete log) :=
  inferInstanceAs (Decidable (∀ e ∈ log, e.writesWhole))

@[simp] theorem receivedBytes_append (log more : List Event) :
    receivedBytes (log ++ more) = receivedBytes log ++ receivedBytes more := List.flatMap_append

@[simp] theorem requests_append (log more : List Event) :
    requests (log ++ more) = requests log ++ requests more := List.filterMap_append

@[simp] theorem sentBytes_append (log more : List Event) :
    sentBytes (log ++ more) = sentBytes log ++ sentBytes more := List.flatMap_append

@[simp] theorem exchanges_append (log more : List Event) :
    exchanges (log ++ more) = exchanges log ++ exchanges more := List.filterMap_append

/-- Complete writes send the responses one after the other. -/
theorem sentBytes_of_writesComplete {log : List Event} (h : WritesComplete log) :
    sentBytes log = (exchanges log).flatMap fun x => x.2.serialize := by
  induction log with
  | nil => rfl
  | cons e log ih =>
      have hlog := ih fun e' he' => h e' (List.mem_cons_of_mem e he')
      have he := h e List.mem_cons_self
      rw [← List.singleton_append, sentBytes_append, exchanges_append, List.flatMap_append, hlog]
      cases e with
      | sent request response success t => simp [sentBytes, exchanges, he.2]
      | _ => rfl

/-- A call of `handshake` logs its result only. -/
theorem mem_handshaken {result : Option Bool} {e : Event}
    (h : e ∈ (result.map Event.handshaken).toList) : ∃ success, e = .handshaken success := by
  cases result with
  | none => contradiction
  | some success => exact ⟨success, by simpa using h⟩

/-- A call of `handshake` is no matter of these. -/
@[simp] theorem readings_handshaken (result : Option Bool) :
    receivedBytes (result.map Event.handshaken).toList = [] ∧
      requests (result.map Event.handshaken).toList = [] ∧
      sentBytes (result.map Event.handshaken).toList = [] ∧
      exchanges (result.map Event.handshaken).toList = [] := by
  cases result <;> exact ⟨rfl, rfl, rfl, rfl⟩

/-- A response is about to be sent that meets `p` with its request. -/
def Control.sends (p : HttpRequest → HttpResponse → Bool) : Control → Bool
  | .sending request response => p request response
  | _ => false

theorem Control.sends_iff {p : HttpRequest → HttpResponse → Bool} {control : Control} :
    control.sends p = true ↔
      ∃ request response, control = .sending request response ∧ p request response = true := by
  cases control <;> simp [sends]

end HttpsServer.Session
