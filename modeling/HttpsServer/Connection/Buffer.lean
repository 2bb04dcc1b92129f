import HttpsServer.Connection.Session

/-!
# HttpsServer.Connection.Buffer

`read_buffer_` over the life of a connection.

`parse` asks for more bytes only as long as what has arrived is shorter than a
request within the limits can be, so the buffer grows by one read at most
beyond that size (`readBuffer_bounded`).  And it is exact: what has been
received is what the requests were taken from, followed by the buffer
(`buffer_exact`).  A request takes 16 bytes or more, which bounds the number of
requests in a stream and of calls of `parse` between two reads.
-/

namespace HttpsServer

/-! ## What a verdict takes and what it leaves -/

/-- The bytes of a request within the limits and of its three separators, but for
one. -/
def bufferBound (limits : ParseLimits) : Nat :=
  limits.maxRequestLineSize.toNat + limits.maxHeaderSize.toNat + limits.maxBodySize.toNat + 5

theorem NeedsMore.length_le {limits : ParseLimits} {data : Bytes} (h : NeedsMore limits data) :
    data.length ≤ bufferBound limits := by
  unfold bufferBound
  rcases h with ⟨-, hle⟩ | ⟨v, hview, hv, -, n, -, hmax, hlt⟩
  · omega
  · have hline := hv.requestLine_le
    have hfields := hv.fields_le
    have hcontent := v.length_content
    have hextra : extraCrlf v.rest ≤ 2 := by
      unfold extraCrlf
      split <;> omega
    have hbytes : v.bytes.length ≤
        v.requestLine.length + 2 + (joinLines CR LF v.fields).length + 2 := by
      rw [v.length_bytes]
      cases v.ending <;> simp
    rw [(headView_eq_some.mp hview).1, List.length_append]
    omega

/-- A request takes 16 bytes at least, and no more than there are. -/
theorem requestVerdict_done {limits : ParseLimits} {data : Bytes} {request : HttpRequest}
    {consumed : Nat} (h : requestVerdict limits data = .done request consumed) :
    16 ≤ consumed ∧ consumed ≤ data.length := by
  rcases requestVerdict_cases limits data with ⟨v, hview, hv, hready, he⟩ | ⟨-, he⟩ | ⟨-, -, he⟩
  · rw [h] at he
    cases he
    exact HeadView.accepted_consumed hview hv hready
  · rw [h] at he
    contradiction
  · rw [h] at he
    contradiction

theorem requestVerdict_more {limits : ParseLimits} {data : Bytes}
    (h : requestVerdict limits data = .more) : data.length ≤ bufferBound limits := by
  rcases requestVerdict_cases limits data with ⟨v, -, -, -, he⟩ | ⟨hneed, -⟩ | ⟨-, -, he⟩
  · rw [h] at he
    contradiction
  · exact hneed.length_le
  · rw [h] at he
    contradiction

theorem length_of_incomplete {limits : ParseLimits} {data : Bytes} {r : ParseResult}
    (h : parse limits data = some r) (he : r.error = .incompleteRequest) :
    data.length ≤ bufferBound limits := by
  rcases parse_cases limits data with ⟨v, -, -, -, hp⟩ | ⟨hneed, -⟩ | ⟨-, -, e, -, hne, hp⟩
  · rw [h, Option.some.injEq] at hp
    subst hp
    contradiction
  · exact hneed.length_le
  · rw [h, Option.some.injEq] at hp
    subst hp
    contradiction

namespace Session

/-! ## The buffer is bounded -/

/-- The buffer may hold one read more than `parse` will wait for, but not when
the next read is about to come. -/
structure Bounded (limits : ParseLimits) (s : State) : Prop where
  limits_eq : s.connection.limits = limits
  always : s.connection.readBuffer.length ≤ bufferBound limits + State.bufferSize
  waiting : s.control = .receiving → s.connection.readBuffer.length ≤ bufferBound limits

theorem Bounded.step {limits : ParseLimits} {s t : State} {a : Action} (h : Bounded limits s)
    (hst : Step s a t) : Bounded limits t := by
  obtain ⟨hlimits, halways, hwaiting⟩ := h
  cases hst with
  | @handshaken outcome hs =>
      obtain ⟨tls, complete, he⟩ := s.connection.handshake_eq outcome
      rw [he]
      exact ⟨hlimits, halways, hwaiting⟩
  | closed hs => exact ⟨hlimits, halways, hwaiting⟩
  | parsed hs hv =>
      refine ⟨hlimits, ?_, nofun⟩
      simp only [List.length_drop]
      omega
  | wanting hs hv => exact ⟨hlimits, halways, fun _ => hlimits ▸ requestVerdict_more hv⟩
  | @received answer t hs ht hne =>
      refine ⟨hlimits, ?_, nofun⟩
      have hread := s.connection.length_read_le State.bufferSize answer
      have hle := hwaiting hs
      rw [ht] at hread
      simp only [List.length_append]
      omega
  | @sent request response answer success t hs hsend =>
      refine ⟨hlimits, halways, fun h => ?_⟩
      dsimp only at h
      split at h <;> contradiction
  | _ => exact ⟨hlimits, halways, nofun⟩

theorem Bounded.of_reachable {c : Connection} {s : State} (h : (machine c).Reachable s)
    (hc : c.readBuffer = []) : Bounded c.limits s := by
  refine h.invariant ⟨rfl, ?_, nofun⟩ fun s a t hs hst => hs.step (.of_step hst)
  simp [machine, hc]

/-- **The request buffer is bounded**, in every state of every connection. -/
theorem readBuffer_bounded (socket : Socket) (tlsContext : Bool) (limits : ParseLimits)
    (timeout : UInt32) :
    (∀ data r, parse limits data = some r → r.error = .incompleteRequest →
      data.length ≤ bufferBound limits) ∧
    ∀ s, (machine (.make socket tlsContext limits timeout)).Reachable s →
      s.connection.readBuffer.length ≤ bufferBound limits + 4096 :=
  ⟨fun _ _ => length_of_incomplete, fun _ h => (Bounded.of_reachable h rfl).always⟩

/-- With room for three bytes of everything, a first read of fourteen. -/
theorem readBuffer_bounded_small :
    (∃ r, parse ⟨3, 3, 3⟩ (ascii "GE") = some r ∧ r.error = .incompleteRequest ∧
      (ascii "GE").length ≤ bufferBound ⟨3, 3, 3⟩) ∧
    ∃ s, (machine (.make ⟨3⟩ false ⟨3, 3, 3⟩ 5)).run { connection := .make ⟨3⟩ false ⟨3, 3, 3⟩ 5 }
        [.run, .loopTest, .parse, .receive (.data (ascii "GET / HTTP/1.1"))] = some s ∧
      s.connection.readBuffer = ascii "GET / HTTP/1.1" ∧
      s.connection.readBuffer.length ≤ bufferBound ⟨3, 3, 3⟩ + 4096 := by
  obtain ⟨hparse, hbuffer⟩ := readBuffer_bounded ⟨3⟩ false ⟨3, 3, 3⟩ 5
  obtain ⟨r, hr, he⟩ := Option.map_eq_some_iff.mp (show
    (parse ⟨3, 3, 3⟩ (ascii "GE")).map (·.error) = some .incompleteRequest by decide +kernel)
  obtain ⟨s, hs, hread⟩ := Option.map_eq_some_iff.mp (show
    ((machine (.make ⟨3⟩ false ⟨3, 3, 3⟩ 5)).run { connection := .make ⟨3⟩ false ⟨3, 3, 3⟩ 5 }
      [.run, .loopTest, .parse, .receive (.data (ascii "GET / HTTP/1.1"))]).map
      (·.connection.readBuffer) = some (ascii "GET / HTTP/1.1") by decide +kernel)
  exact ⟨⟨r, hr, he, hparse _ r hr he⟩, s, hs, hread, hbuffer s ⟨_, hs⟩⟩

/-! ## The buffer is exact -/

/-- What has been received is what the requests were taken from, and the
buffer; every request has taken 16 bytes. -/
structure Exact (s : State) : Prop where
  received : receivedBytes s.log =
    (requests s.log).flatMap Prod.snd ++ s.connection.readBuffer
  size : ∀ p ∈ requests s.log, 16 ≤ p.2.length

theorem Exact.congr {s t : State} (h : Exact s)
    (hreceived : receivedBytes t.log = receivedBytes s.log)
    (hrequests : requests t.log = requests s.log)
    (hbuffer : t.connection.readBuffer = s.connection.readBuffer) : Exact t := by
  refine ⟨?_, ?_⟩
  · rw [hreceived, hrequests, hbuffer]
    exact h.received
  · rw [hrequests]
    exact h.size

theorem Exact.step {s t : State} {a : Action} (h : Exact s) (hst : Step s a t) : Exact t := by
  cases hst with
  | @handshaken outcome hs =>
      obtain ⟨tls, complete, he⟩ := s.connection.handshake_eq outcome
      exact h.congr (by simp) (by simp) (by rw [he])
  | @parsed request consumed hs hv =>
      have htake := List.take_append_drop consumed s.connection.readBuffer
      have hlen := requestVerdict_done hv
      refine ⟨?_, fun p hp => ?_⟩
      · rw [receivedBytes_append, requests_append, List.flatMap_append, List.append_assoc, h.received]
        simp [receivedBytes, requests, htake]
      · rw [requests_append] at hp
        cases List.mem_append.mp hp with
        | inl hbefore => exact h.size p hbefore
        | inr hnew =>
            obtain rfl : p = (request, s.connection.readBuffer.take consumed) := by
              simpa [requests] using hnew
            rw [List.length_take]
            omega
  | @received answer t hs ht hne =>
      refine ⟨?_, fun p hp => h.size p (by simpa [requests] using hp)⟩
      rw [receivedBytes_append, requests_append, h.received]
      simp [receivedBytes, requests]
  | ended hs ht hnil => exact h.congr (by simp [receivedBytes, hnil]) (by simp [requests]) rfl
  | closed | entered | continued | left | wanting => exact h.congr rfl rfl rfl
  | _ => exact h.congr (by simp [receivedBytes]) (by simp [requests]) rfl

theorem Exact.of_reachable {c : Connection} {s : State} (h : (machine c).Reachable s)
    (hc : c.readBuffer = []) : Exact s := by
  refine h.invariant ⟨hc.symm, nofun⟩ fun s a t hs hst => hs.step (.of_step hst)

/-- The requests of a session fit the bytes received, 16 to a request. -/
theorem Exact.requests_le {s : State} (h : Exact s) :
    16 * (requests s.log).length ≤ (receivedBytes s.log).length := by
  have hsum : ∀ ps : List (HttpRequest × Bytes), (∀ p ∈ ps, 16 ≤ p.2.length) →
      16 * ps.length ≤ (ps.flatMap Prod.snd).length := by
    intro ps hps
    induction ps with
    | nil => exact Nat.zero_le _
    | cons p ps ih =>
        have hp := hps p (by simp)
        have := ih fun q hq => hps q (by simp [hq])
        simp only [List.flatMap_cons, List.length_append, List.length_cons]
        omega
  have := hsum _ h.size
  rw [h.received, List.length_append]
  omega

/-! ## Progress between two reads -/

/-- A step that takes bytes from the network, or enters `run` anew. -/
def Action.refills : Action → Bool
  | .receive _ => true
  | .run => true
  | _ => false

def Action.parses : Action → Bool
  | .parse => true
  | _ => false

/-- Sixteen times the number of calls of `parse` that can still be made before
the next read. -/
def State.parsesLeft (s : State) : Nat :=
  match s.control with
  | .outside | .receiving | .closing => 0
  | _ => s.connection.readBuffer.length + 16

/-- A call of `parse` uses up 16 bytes of the buffer, or is the last one. -/
theorem parsesLeft_step {s t : State} {a : Action} (hst : Step s a t) (ha : a.refills = false) :
    t.parsesLeft + (if a.parses then 16 else 0) ≤ s.parsesLeft := by
  cases hst with
  | @handshaken outcome hs => simp [State.parsesLeft, hs, Action.parses]
  | parsed hs hv =>
      have := requestVerdict_done hv
      simp only [State.parsesLeft, hs, Action.parses, if_true, List.length_drop]
      omega
  | sent hs hsend =>
      simp only [State.parsesLeft, hs, Action.parses]
      split <;> simp
  | received | ended | entered => contradiction
  | closed hs | continued hs _ | left hs _ | wanting hs _ | rejected hs _ | handled hs
  | threw hs | returned hs => simp [State.parsesLeft, hs, Action.parses]

/-- **No request is parsed for ever**: between two reads `parse` is called once
for every 16 bytes of the buffer, and once more. -/
theorem countP_parses_le {c : Connection} {s t : State} {as : List Action}
    (h : (machine c).run s as = some t) (has : ∀ a ∈ as, a.refills = false) :
    16 * as.countP Action.parses + t.parsesLeft ≤ s.parsesLeft := by
  have hcount := Machine.run_countP_le (w := 16) (p := Action.parses) (l := State.parsesLeft)
    (r := fun _ => 0) (fun u a v ha hst => ?_) h has
  · exact hcount
  · have hstep := parsesLeft_step (.of_step hst) ha
    omega

theorem parsesLeft_le (s : State) : s.parsesLeft ≤ s.connection.readBuffer.length + 16 := by
  unfold State.parsesLeft
  split <;> omega

/-- **No byte is lost, repeated or read twice, and every request makes
progress.** -/
theorem buffer_exact (socket : Socket) (tlsContext : Bool) (limits : ParseLimits)
    (timeout : UInt32) (s : State)
    (h : (machine (.make socket tlsContext limits timeout)).Reachable s) :
    receivedBytes s.log = (requests s.log).flatMap Prod.snd ++ s.connection.readBuffer ∧
    (∀ p ∈ requests s.log, 16 ≤ p.2.length) ∧
    (requests s.log).length ≤ (receivedBytes s.log).length / 16 ∧
    ∀ as t, (machine (.make socket tlsContext limits timeout)).run s as = some t →
      (∀ a ∈ as, a.refills = false) →
      as.countP Action.parses ≤ s.connection.readBuffer.length / 16 + 1 := by
  have hexact := Exact.of_reachable h rfl
  refine ⟨hexact.received, hexact.size, ?_, fun as t hrun has => ?_⟩
  · rw [Nat.le_div_iff_mul_le (by decide), Nat.mul_comm]
    exact hexact.requests_le
  · have hcount := countP_parses_le hrun has
    have hleft := parsesLeft_le s
    omega

/-- A request and the beginning of the next one in one read. -/
theorem buffer_exact_pipelined :
    ∃ s, (machine (.make ⟨3⟩ false {} 5)).run { connection := .make ⟨3⟩ false {} 5 }
        [.run, .loopTest, .parse,
          .receive (.data (ascii "GET / HTTP/1.1\r\nHost: a\r\n\r\nGET")), .parse] = some s ∧
      s.connection.readBuffer = ascii "GET" ∧
      receivedBytes s.log = (requests s.log).flatMap Prod.snd ++ s.connection.readBuffer ∧
      (requests s.log).length ≤ (receivedBytes s.log).length / 16 := by
  obtain ⟨s, hs, hbuffer⟩ := Option.map_eq_some_iff.mp (show
    ((machine (.make ⟨3⟩ false {} 5)).run { connection := .make ⟨3⟩ false {} 5 }
      [.run, .loopTest, .parse,
        .receive (.data (ascii "GET / HTTP/1.1\r\nHost: a\r\n\r\nGET")), .parse]).map
      (·.connection.readBuffer) = some (ascii "GET") by decide +kernel)
  have hexact := buffer_exact ⟨3⟩ false {} 5 s ⟨_, hs⟩
  exact ⟨s, hs, hbuffer, hexact.1, hexact.2.2.1⟩

end Session

end HttpsServer
