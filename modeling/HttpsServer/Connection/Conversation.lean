import HttpsServer.Connection.Buffer
import HttpsServer.Parser.Pipeline

/-!
# HttpsServer.Connection.Conversation

A connection whose client sends whole requests, one behind the other.

The requests are within the limits, and no body begins with the CRLF that `parse`
would step over.  How the network cuts the stream into reads is open, but for
reads that end where `parse` misreads the beginning of a request (`Paced`).  Then
what `read_request` hands out are the client's requests in their order, no request
is rejected, and where `parse` asks for more there is no whole request left in the
buffer.
-/

namespace HttpsServer.Session

variable {limits : ParseLimits}

/-- No read ends where the beginning of a request is misread. -/
def Paced (limits : ParseLimits) (rs : List ClientRequest) (log : List Event) : Prop :=
  ∀ before, before <+: log → ¬ ClientRequest.Mistakable limits rs (receivedBytes before).length

theorem Paced.of_prefix {rs : List ClientRequest} {log more : List Event}
    (h : Paced limits rs more) (hlog : log <+: more) : Paced limits rs log :=
  fun before hbefore => h before (hbefore.trans hlog)

/-- What has been received stays received. -/
theorem receivedBytes_mono {log more : List Event} (h : log <+: more) :
    receivedBytes log <+: receivedBytes more := by
  obtain ⟨rest, rfl⟩ := h
  rw [receivedBytes_append]
  exact List.prefix_append _ _

/-- A beginning of these requests has arrived. -/
structure Arrived (limits : ParseLimits) (rs : List ClientRequest) (log : List Event) : Prop where
  within : ∀ r ∈ rs, r.Within limits
  /-- `parse` would step over a CRLF at the beginning of a body. -/
  bodies : ∀ r ∈ rs, ¬ crlf <+: r.body
  stream : receivedBytes log <+: ClientRequest.stream rs
  paced : Paced limits rs log

theorem Arrived.of_prefix {rs : List ClientRequest} {log more : List Event}
    (h : Arrived limits rs more) (hlog : log <+: more) : Arrived limits rs log where
  within := h.within
  bodies := h.bodies
  stream := (receivedBytes_mono hlog).trans h.stream
  paced := h.paced.of_prefix hlog

/-- What the client has sent is what the requests were taken from, and the
buffer. -/
theorem Exact.buffer_prefix {rs before after : List ClientRequest} {s : State}
    (h : Exact s) (hrs : rs = before ++ after)
    (htaken : requests s.log = before.map fun r => (r.request, r.bytes))
    (hstream : receivedBytes s.log <+: ClientRequest.stream rs) :
    receivedBytes s.log = ClientRequest.stream before ++ s.connection.readBuffer ∧
      s.connection.readBuffer <+: ClientRequest.stream after := by
  have hslices : (requests s.log).flatMap Prod.snd = ClientRequest.stream before := by
    rw [htaken, List.flatMap_map]
    rfl
  have hreceived := h.received
  rw [hslices] at hreceived
  rw [hreceived, hrs, ClientRequest.stream_append, List.prefix_append_right_inj] at hstream
  exact ⟨hreceived, hstream⟩

/-- What `parse` makes of the buffer after these requests: the next one, or it
has not arrived. -/
theorem Exact.requestVerdict_taken {rs before after : List ClientRequest} {s : State}
    (h : Exact s) (hlimits : s.connection.limits = limits) (hrs : rs = before ++ after)
    (htaken : requests s.log = before.map fun r => (r.request, r.bytes))
    (harrived : Arrived limits rs s.log) :
    (∃ r rest more, after = r :: rest ∧ s.connection.readBuffer = r.bytes ++ more ∧
        requestVerdict s.connection.limits s.connection.readBuffer =
          .done r.request r.bytes.length) ∨
      (requestVerdict s.connection.limits s.connection.readBuffer = .more ∧
        ∀ r rest, after = r :: rest → s.connection.readBuffer.length < r.bytes.length) := by
  obtain ⟨hreceived, hbuffer⟩ := h.buffer_prefix hrs htaken harrived.stream
  have hread := harrived.paced s.log (List.prefix_refl _)
  rw [hreceived, hrs, List.length_append, ClientRequest.mistakable_append] at hread
  rw [hlimits]
  refine ClientRequest.requestVerdict_stream (fun r hr => harrived.within r ?_)
    (fun r hr => harrived.bodies r ?_) hbuffer hread
  all_goals exact hrs ▸ List.mem_append_right before hr

/-- Where `parse` asks for more, the next request has not arrived. -/
theorem Exact.lt_of_more {rs before : List ClientRequest} {r : ClientRequest} {s : State}
    (h : Exact s) (hlimits : s.connection.limits = limits)
    (hmore : requestVerdict s.connection.limits s.connection.readBuffer = .more)
    (hrs : before ++ [r] <+: rs)
    (htaken : requests s.log = before.map fun r => (r.request, r.bytes))
    (harrived : Arrived limits rs s.log) :
    (receivedBytes s.log).length < (ClientRequest.stream (before ++ [r])).length := by
  obtain ⟨rest, hrest⟩ := hrs
  rw [List.append_assoc] at hrest
  rw [(h.buffer_prefix hrest.symm htaken harrived.stream).1, ClientRequest.stream_append,
    List.length_append, List.length_append, Nat.add_lt_add_iff_left, ClientRequest.stream_cons,
    ClientRequest.stream_nil, List.append_nil]
  rcases h.requestVerdict_taken hlimits hrest.symm htaken harrived with
    ⟨r, rest, more, -, -, hdone⟩ | ⟨-, hlt⟩
  · rw [hmore] at hdone
    cases hdone
  · exact hlt r rest rfl

/-- The connection and its client agree on the requests so far. -/
structure Conversing (limits : ParseLimits) (rs : List ClientRequest) (s : State) : Prop where
  limits_eq : s.connection.limits = limits
  taken : ∃ before after, rs = before ++ after ∧
    requests s.log = before.map fun r => (r.request, r.bytes)
  accepted : Event.rejected ∉ s.log

/-- A step that takes no request. -/
theorem Conversing.append {rs : List ClientRequest} {s t : State} {new : List Event}
    (h : Conversing limits rs s) (hlog : t.log = s.log ++ new)
    (hlimits : t.connection.limits = s.connection.limits) (hnew : requests new = [])
    (haccepted : Event.rejected ∉ new) : Conversing limits rs t where
  limits_eq := hlimits.trans h.limits_eq
  taken := by
    rw [hlog, requests_append, hnew, List.append_nil]
    exact h.taken
  accepted := by
    rw [hlog, List.mem_append]
    exact fun hmem => hmem.elim h.accepted haccepted

/-- **Step**: the requests that are taken are the client's. -/
theorem Conversing.step {rs : List ClientRequest} {s t : State} {a : Action}
    (h : Conversing limits rs s) (hexact : Exact s) (harrived : Arrived limits rs s.log)
    (hst : Step s a t) : Conversing limits rs t := by
  obtain ⟨before, after, hrs, htaken⟩ := h.taken
  have hverdict := hexact.requestVerdict_taken h.limits_eq hrs htaken harrived
  cases hst with
  | @handshaken outcome hs =>
      obtain ⟨tls, complete, he⟩ := s.connection.handshake_eq outcome
      refine h.append rfl (by rw [he]) ?_ ?_
      all_goals cases (s.connection.handshake outcome).2 <;> simp [requests]
  | closed | entered | continued | left | wanting =>
      exact h.append (List.append_nil _).symm rfl rfl List.not_mem_nil
  | @parsed request consumed hs hv =>
      rcases hverdict with ⟨r, rest, more, rfl, hbuffer, hdone⟩ | ⟨hmore, -⟩
      · rw [hv] at hdone
        cases hdone
        refine ⟨h.limits_eq, ⟨before ++ [r], rest, by simp [hrs], ?_⟩, ?_⟩
        · rw [requests_append, htaken, List.map_append, hbuffer, List.take_left]
          rfl
        · simpa using h.accepted
      · rw [hv] at hmore
        cases hmore
  | rejected hs hv =>
      rcases hverdict with ⟨r, rest, more, -, -, hdone⟩ | ⟨hmore, -⟩
      · rw [hv] at hdone
        cases hdone
      · rw [hv] at hmore
        cases hmore
  | received | ended | handled | threw | returned | sent =>
      exact h.append rfl rfl (by simp [requests]) (by simp)

/-- **Run**: a connection whose client keeps to it takes the client's requests. -/
theorem Conversing.of_reachable {rs : List ClientRequest} {c : Connection} {s : State}
    (h : (machine c).Reachable s) (hlimits : c.limits = limits) (hbuffer : c.readBuffer = [])
    (harrived : Arrived limits rs s.log) : Conversing limits rs s := by
  have hboth : (machine c).Reachable s ∧ (Arrived limits rs s.log → Conversing limits rs s) := by
    refine h.invariant
      (I := fun s => (machine c).Reachable s ∧ (Arrived limits rs s.log → Conversing limits rs s))
      ⟨.init, fun _ => ⟨hlimits, ⟨[], rs, rfl, rfl⟩, List.not_mem_nil⟩⟩ fun s a t hs hst => ?_
    have hlog := log_prefix_step (.of_step hst)
    refine ⟨hs.1.step hst, fun harrived => ?_⟩
    have hbefore := harrived.of_prefix hlog
    exact (hs.2 hbefore).step (.of_reachable hs.1 hbuffer) hbefore (.of_step hst)
  exact hboth.2 harrived

end HttpsServer.Session
