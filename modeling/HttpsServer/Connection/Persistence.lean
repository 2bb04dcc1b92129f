import HttpsServer.Connection.Session
import HttpsServer.Response.Roundtrip

/-!
# HttpsServer.Connection.Persistence

The Connection line of a response, and what `run` does after sending it.

`serialize` writes the line from the response's own flag, which `run` never
sets; `run` decides by the request and the keep-alive timeout.  So the line
announces what happens exactly when the flag agrees with that decision
(`advertised_iff`).
-/

namespace HttpsServer

namespace HttpResponse

/-! ## The line -/

def connectionLine (keepAlive : Bool) : Bytes :=
  ascii "Connection: " ++ if keepAlive then ascii "keep-alive" else ascii "close"

/-- The head of the response, as a client splits it into lines, has the line
for `keepAlive`. -/
def Says (r : HttpResponse) (keepAlive : Bool) : Prop :=
  ∃ v, headView r.serialize = some v ∧ connectionLine keepAlive ∈ v.fields

instance decidableSays (r : HttpResponse) (keepAlive : Bool) : Decidable (r.Says keepAlive) :=
  decidable_of_iff ((headView r.serialize).any (connectionLine keepAlive ∈ ·.fields) = true)
    (by simp [Says, Option.any_eq_true])

theorem says_iff (r : HttpResponse) (keepAlive : Bool) :
    r.Says keepAlive ↔ connectionLine keepAlive ∈ r.shownLines r.headers.all := by
  unfold Says serialize
  simp [headView_serializeIn]

theorem connectionLine_eq (keepAlive : Bool) :
    connectionLine keepAlive =
      writeField (ascii "Connection", if keepAlive then ascii "keep-alive" else ascii "close") := by
  simp [connectionLine, writeField, ascii]

/-- Nothing but the field of that name writes the line: it has one colon. -/
theorem eq_of_writeField_eq {f : Bytes × Bytes} {keepAlive : Bool}
    (h : writeField f = connectionLine keepAlive) :
    lowercase f.1 = ascii "connection" ∧
      f.2 = if keepAlive then ascii "keep-alive" else ascii "close" := by
  have hcolon : 58 ∉ f.1 := by
    have hcount : (connectionLine keepAlive).count 58 = 1 := by cases keepAlive <;> decide
    rw [← h] at hcount
    simp only [writeField, List.count_append] at hcount
    have hsep : (ascii ": ").count 58 = 1 := by decide
    exact List.count_eq_zero.mp (by omega)
  have hread := readField_writeField hcolon
  have hname : 58 ∉ ascii "Connection" := by decide
  rw [h, connectionLine_eq, readField_writeField hname, Option.some.injEq, Prod.mk.injEq] at hread
  have hlower : lowercase (ascii "Connection") = ascii "connection" := by decide
  exact ⟨hread.1.symm.trans hlower, hread.2.symm⟩

/-- The line written is that of the response's flag. -/
theorem connectionLine_mem_fieldLines {r : HttpResponse} {keepAlive : Bool} :
    connectionLine keepAlive ∈ r.fieldLines r.headers.all ↔ r.keepAlive = keepAlive := by
  have htext : ∀ b : Bool, (if b then ascii "keep-alive" else ascii "close") = r.connectionText ↔
      r.keepAlive = b := by
    unfold connectionText
    cases r.keepAlive <;> decide
  constructor
  · intro h
    obtain ⟨f, hf, hline⟩ := List.mem_map.mp h
    obtain ⟨hname, hvalue⟩ := eq_of_writeField_eq hline
    simp only [fields, List.mem_cons, List.mem_append, List.mem_map, List.mem_filter] at hf
    rcases hf with rfl | rfl | ⟨e, ⟨-, he⟩, rfl⟩ | rfl | hnil
    · have hne : lowercase (ascii "Content-Length") ≠ ascii "connection" := by decide
      exact absurd hname hne
    · exact (htext keepAlive).mp hvalue.symm
    · rw [lowercase_titleCaseHeader] at hname
      simp [isReserved, toLower_eq_lowercase, hname] at he
    · have hne : lowercase (ascii "Content-Type") ≠ ascii "connection" := by decide
      exact absurd hname hne
    · contradiction
  · rintro rfl
    refine List.mem_map.mpr ⟨(ascii "Connection", r.connectionText), by simp [fields], ?_⟩
    rw [connectionLine_eq, (htext _).mpr rfl]

/-- Where no header breaks a line, a client reads the flag. -/
theorem says_iff_of_unbroken {r : HttpResponse}
    (h : ∀ l ∈ r.fieldLines r.headers.all, ¬ crlf <:+: l) (keepAlive : Bool) :
    r.Says keepAlive ↔ r.keepAlive = keepAlive := by
  rw [says_iff, (shown_of_unbroken h).1, connectionLine_mem_fieldLines]

end HttpResponse

namespace Session

/-! ## What run does after a response -/

/-- `run` goes on to read a further request. -/
def GoesOn (c : Connection) (s : State) : Prop :=
  ∃ t, (machine c).step s .loopTest = some t ∧ t.control = .reading

/-- `run` closes the connection. -/
def Closes (c : Connection) (s : State) : Prop :=
  ∃ t, (machine c).step s .leave = some t ∧
    t.connection.open = false ∧ t.connection.socket.valid = false

/-- In the state after it, the response sent has announced what follows. -/
def Advertised (c : Connection) (response : HttpResponse) (s : State) : Prop :=
  (response.Says true ↔ GoesOn c s) ∧ (response.Says false ↔ Closes c s)

/-- After a successful send `run` does what `should_keep_alive` says. -/
theorem goesOn_closes_iff {c : Connection} {s t : State} {request : HttpRequest}
    {response : HttpResponse} {answer : SendAnswer} (hr : (machine c).Reachable s)
    (hs : s.control = .sending request response) (hst : (machine c).step s (.send answer) = some t)
    (hsuccess : (s.connection.sendResponse response answer).1 = true) :
    (GoesOn c t ↔ s.connection.shouldKeepAlive request = true) ∧
      (Closes c t ↔ s.connection.shouldKeepAlive request = false) := by
  have hopen := open_of_inLoop hr (by rw [hs]; rfl)
  obtain rfl : s.send request response answer = t := by
    simpa [machine, State.step, hs] using hst
  cases hk : s.connection.shouldKeepAlive request with
  | true => simp [GoesOn, Closes, machine, State.step, State.send, hsuccess, hk, hopen]
  | false =>
      simp [GoesOn, Closes, machine, State.step, State.send, hsuccess, hk, Connection.close,
        Socket.close, Socket.valid]

/-- **The Connection line is right** exactly when the line of what
`should_keep_alive` decides is shown and the other is not: where no header
breaks a line, when the response's flag is that decision. -/
theorem advertised_iff {c : Connection} {s t : State} {request : HttpRequest}
    {response : HttpResponse} {answer : SendAnswer} (hr : (machine c).Reachable s)
    (hs : s.control = .sending request response) (hst : (machine c).step s (.send answer) = some t)
    (hsuccess : (s.connection.sendResponse response answer).1 = true) :
    (Advertised c response t ↔ ∀ keepAlive : Bool,
      HttpResponse.connectionLine keepAlive ∈ response.shownLines response.headers.all ↔
        s.connection.shouldKeepAlive request = keepAlive) ∧
    ((∀ l ∈ response.fieldLines response.headers.all, ¬ crlf <:+: l) →
      (Advertised c response t ↔ response.keepAlive = s.connection.shouldKeepAlive request)) := by
  obtain ⟨hgoes, hcloses⟩ := goesOn_closes_iff hr hs hst hsuccess
  refine ⟨?_, fun hunbroken => ?_⟩
  · unfold Advertised
    rw [hgoes, hcloses, Bool.forall_bool, HttpResponse.says_iff, HttpResponse.says_iff, and_comm]
  · unfold Advertised
    rw [hgoes, hcloses, HttpResponse.says_iff_of_unbroken hunbroken,
      HttpResponse.says_iff_of_unbroken hunbroken]
    cases response.keepAlive <;> cases s.connection.shouldKeepAlive request <;> decide

/-- A request that leaves the connection open, and a response that says so. -/
theorem advertised_iff_keepAlive :
    ∃ s t request response, (machine (.make ⟨3⟩ false {} 5)).run
        (machine (.make ⟨3⟩ false {} 5)).init
        [.run, .loopTest, .parse, .receive (.data (ascii "GET / HTTP/1.1\r\nHost: a\r\n\r\n")),
          .parse, .handle (some (.ok []))] = some s ∧
      s.control = .sending request response ∧
      (machine (.make ⟨3⟩ false {} 5)).step s (.send (.taken 200)) = some t ∧
      Advertised (.make ⟨3⟩ false {} 5) response t := by
  obtain ⟨s, hs, hsends⟩ := Option.map_eq_some_iff.mp (show
    ((machine (.make ⟨3⟩ false {} 5)).run (machine (.make ⟨3⟩ false {} 5)).init
      [.run, .loopTest, .parse, .receive (.data (ascii "GET / HTTP/1.1\r\nHost: a\r\n\r\n")),
        .parse, .handle (some (.ok []))]).map
      (fun s => s.control.sends fun request response =>
        (s.connection.sendResponse response (.taken 200)).1 &&
          response.keepAlive = s.connection.shouldKeepAlive request &&
          ∀ l ∈ response.fieldLines response.headers.all, ¬ crlf <:+: l) =
      some true by decide +kernel)
  obtain ⟨request, response, hcontrol, hall⟩ := Control.sends_iff.mp hsends
  simp only [Bool.and_eq_true, decide_eq_true_eq] at hall
  obtain ⟨⟨hsuccess, hkeep⟩, hunbroken⟩ := hall
  have hst : (machine (.make ⟨3⟩ false {} 5)).step s (.send (.taken 200)) =
      some (s.send request response (.taken 200)) := by simp [machine, State.step, hcontrol]
  have hiff := (advertised_iff ⟨_, hs⟩ hcontrol hst hsuccess).2 hunbroken
  exact ⟨s, _, request, response, hs, hcontrol, hst, hiff.mpr hkeep⟩

/-- The client asks for closure; the response says keep-alive, and `run`
closes. -/
theorem not_advertised_close :
    ¬ ∀ (c : Connection) (s t : State) (request : HttpRequest) (response : HttpResponse)
      (answer : SendAnswer), (machine c).Reachable s → s.control = .sending request response →
        (machine c).step s (.send answer) = some t →
        (s.connection.sendResponse response answer).1 = true → Advertised c response t := by
  intro h
  obtain ⟨s, hs, hsends⟩ := Option.map_eq_some_iff.mp (show
    ((machine (.make ⟨3⟩ false {} 5)).run (machine (.make ⟨3⟩ false {} 5)).init
      [.run, .loopTest, .parse,
        .receive (.data (ascii "GET / HTTP/1.1\r\nHost: a\r\nConnection: close\r\n\r\n")), .parse,
        .handle (some (.ok []))]).map
      (fun s => s.control.sends fun request response =>
        (s.connection.sendResponse response (.taken 200)).1 && response.Says true &&
          !s.connection.shouldKeepAlive request) =
      some true by decide +kernel)
  obtain ⟨request, response, hcontrol, hall⟩ := Control.sends_iff.mp hsends
  simp only [Bool.and_eq_true, decide_eq_true_eq, Bool.not_eq_true'] at hall
  obtain ⟨⟨hsuccess, hsays⟩, hcloses⟩ := hall
  have hst : (machine (.make ⟨3⟩ false {} 5)).step s (.send (.taken 200)) =
      some (s.send request response (.taken 200)) := by simp [machine, State.step, hcontrol]
  have hgoes := (h _ s _ request response (.taken 200) ⟨_, hs⟩ hcontrol hst hsuccess).1.mp hsays
  rw [(goesOn_closes_iff ⟨_, hs⟩ hcontrol hst hsuccess).1, hcloses] at hgoes
  contradiction

end Session

end HttpsServer
