import HttpsServer.Connection.Containment
import HttpsServer.Parser.Extension
import HttpsServer.Response.Length
import HttpsServer.Response.Roundtrip

/-!
# HttpsServer.Connection.Stream

The responses of a connection as its client finds them in the stream.

The client knows the methods of its requests, and with them where a response
ends: at the empty line, or as many bytes after it as Content-Length says.
`serialize` writes the body whatever the request and the status.  So the stream
stays in frame exactly as long as no response that ends at its empty line has
a body, and none has a header that breaks into the head (`inFrame_iff`).
-/

namespace HttpsServer

/-! ## The client -/

/-- A response ends at its empty line. -/
def endsAtHead (method : HttpMethod) (status : StatusCode) : Bool :=
  method = .head || status.code / 100 = 1 || status.code = 204

/-- The value of Content-Length; the lines of that name have to agree. -/
def contentLength (fields : List Bytes) : Option Nat :=
  match valuesOf (ascii "content-length") fields with
  | [] => none
  | value :: more =>
    if IsDecimal value ∧ ∀ other ∈ more, other = value then some (decimalValue value) else none

/-- The response to a request with this method: status and body, and what is
left of the stream. -/
def readFrame (method : HttpMethod) (stream : Bytes) :
    Option ((StatusCode × Bytes) × Bytes) := do
  let v ← headView stream
  match v.ending with
  | .unclosed _ => none
  | .closed after =>
    let (_, status, _) ← readStatusLine v.requestLine
    if endsAtHead method status then some ((status, []), after)
    else
      let length ← contentLength v.fields
      if length ≤ after.length then some ((status, after.take length), after.drop length)
      else none

/-- A response stays what it is when more of the stream arrives. -/
theorem readFrame_append {method : HttpMethod} {stream rest : Bytes} {frame : StatusCode × Bytes}
    (h : readFrame method stream = some (frame, rest)) (more : Bytes) :
    readFrame method (stream ++ more) = some (frame, rest ++ more) := by
  simp only [readFrame, Option.bind_eq_bind, Option.bind_eq_some_iff] at h ⊢
  obtain ⟨v, hv, h⟩ := h
  cases he : v.ending with
  | unclosed piece => simp [he] at h
  | closed after =>
      have hopen : ∀ p, v.ending = .unclosed p → ¬ crlf <:+: p ++ more := by simp [he]
      have hext := headView_extend hv hopen
      refine ⟨_, hext, ?_⟩
      simp only [HeadView.extend, he] at h ⊢
      obtain ⟨⟨version, status, reason⟩, hstatus, h⟩ := Option.bind_eq_some_iff.mp h
      rw [hstatus, Option.bind_some]
      dsimp only at h ⊢
      split at h
      · next hends =>
        cases h
        rw [if_pos hends]
      · next hends =>
        obtain ⟨length, hlength, h⟩ := Option.bind_eq_some_iff.mp h
        rw [if_neg hends, hlength, Option.bind_some]
        split at h
        · next hle =>
          cases h
          rw [if_pos (by simp; omega), List.take_append_of_le_length hle,
            List.drop_append_of_le_length hle]
        · contradiction

namespace HttpResponse

/-- The Content-Length of the response is the size of its body. -/
def Honest (r : HttpResponse) : Prop :=
  IsDecimal r.lengthText ∧ decimalValue r.lengthText = r.body.length

instance (r : HttpResponse) : Decidable r.Honest := by unfold Honest; infer_instance

/-- What the client is to make of a response. -/
def frame (method : HttpMethod) (r : HttpResponse) : StatusCode × Bytes :=
  (r.status, if endsAtHead method r.status then [] else r.body)

/-- No header smuggles an empty line into the head; there is no body where the
response ends at its empty line, and nothing contradicts its Content-Length
where it does not. -/
def Framed (method : HttpMethod) (r : HttpResponse) : Prop :=
  r.smuggled r.headers.all = [] ∧
    if endsAtHead method r.status then r.body = []
    else ∀ value ∈ valuesOf (ascii "content-length") (r.shownLines r.headers.all),
      value = r.lengthText

instance (method : HttpMethod) (r : HttpResponse) : Decidable (r.Framed method) := by
  unfold Framed; infer_instance

/-- **A response alone**: the client finds it, and nothing else, in its bytes
exactly when it is framed. -/
theorem readFrame_serialize_iff {method : HttpMethod} {r : HttpResponse} (h : r.Honest) :
    readFrame method r.serialize = some (r.frame method, []) ↔ r.Framed method := by
  obtain ⟨hdecimal, hvalue⟩ := h
  obtain ⟨more, hmore⟩ : ∃ more, valuesOf (ascii "content-length") (r.shownLines r.headers.all) =
      r.lengthText :: more := by
    have hhead := head?_valuesOf_shownLines hdecimal r.headers.all
    exact ⟨_, List.eq_cons_of_mem_head? hhead⟩
  unfold serialize readFrame
  rw [headView_serializeIn]
  simp only [Option.bind_eq_bind, Option.bind_some, readStatusLine_statusLine, frame, Framed]
  cases hends : endsAtHead method r.status with
  | true => simp
  | false =>
      simp only [Bool.false_eq_true, if_false, contentLength, hmore, hdecimal, true_and, hvalue,
        List.forall_mem_cons]
      by_cases hagree : ∀ other ∈ more, other = r.lengthText
      · rw [if_pos hagree, Option.bind_some, if_pos (by simp)]
        constructor
        · intro hframe
          have hrest : (r.smuggled r.headers.all ++ r.body).drop r.body.length = [] :=
            (Prod.mk.inj (Option.some.inj hframe)).2
          rw [List.drop_eq_nil_iff, List.length_append] at hrest
          exact ⟨List.length_eq_zero_iff.mp (by omega), hagree⟩
        · rintro ⟨hsmuggled, -⟩
          simp [hsmuggled]
      · simp [hagree]

end HttpResponse

namespace Session

/-! ## The stream of a connection -/

/-- What is taken for granted of writes and handlers. -/
structure Assumed (log : List Event) : Prop where
  whole : WritesComplete log
  honest : ∀ x ∈ exchanges log, x.2.Honest

/-- The client recovers one response for each request that was handled, but
for the one that is about to be sent, and no bytes are left over. -/
structure InFrame (s : State) : Prop where
  recovered :
    readFrames readFrame ((exchanges s.log).map fun x => x.1.method) (sentBytes s.log) =
      some ((exchanges s.log).map fun x => x.2.frame x.1.method, [])
  complete : given s.log = exchanges s.log ++ s.control.toSend

/-- The response that this step sends is framed. -/
def Frames (s : State) : Action → Prop
  | .send _ => ∀ x ∈ s.control.toSend, x.2.Framed x.1.method
  | _ => True

instance decidableFrames (s : State) : ∀ a, Decidable (Frames s a)
  | .send _ => inferInstanceAs (Decidable (∀ x ∈ s.control.toSend, x.2.Framed x.1.method))
  | .handshake _ | .close | .run | .loopTest | .parse | .receive _ | .handle _ | .leave =>
    isTrue trivial

theorem Assumed.of_prefix {log more : List Event} (h : Assumed more) (hlog : log <+: more) :
    Assumed log := by
  obtain ⟨rest, rfl⟩ := hlog
  refine ⟨fun e he => h.whole e (by simp [he]), fun x hx => h.honest x ?_⟩
  rw [exchanges_append]
  exact List.mem_append_left _ hx

/-- Only `send` adds to the stream. -/
theorem exchanges_step {s t : State} {a : Action} (hst : Step s a t) :
    (exchanges t.log = exchanges s.log ∧ sentBytes t.log = sentBytes s.log ∧
        ∀ answer, a ≠ .send answer) ∨
      ∃ request response answer success transfer, s.control = .sending request response ∧
        a = .send answer ∧ t.log = s.log ++ [.sent request response success transfer] := by
  cases hst with
  | @sent request response answer success transfer hs hsend =>
      exact .inr ⟨request, response, answer, success, transfer, hs, rfl, rfl⟩
  | closed | entered | continued | left | wanting => exact .inl ⟨rfl, rfl, by simp⟩
  | handshaken hs => exact .inl ⟨by simp, by simp, by simp⟩
  | _ => exact .inl ⟨by simp [exchanges], by simp [sentBytes], by simp⟩

/-- A step keeps the stream in frame exactly when what it sends is framed. -/
theorem recovered_step_iff {s t : State} {a : Action} (hassumed : Assumed t.log)
    (h : readFrames readFrame ((exchanges s.log).map fun x => x.1.method) (sentBytes s.log) =
      some ((exchanges s.log).map fun x => x.2.frame x.1.method, []))
    (hst : Step s a t) :
    readFrames readFrame ((exchanges t.log).map fun x => x.1.method) (sentBytes t.log) =
        some ((exchanges t.log).map fun x => x.2.frame x.1.method, []) ↔ Frames s a := by
  rcases exchanges_step hst with ⟨hexchanges, hsent, hnot⟩ |
    ⟨request, response, answer, success, transfer, hs, rfl, hlog⟩
  · rw [hexchanges, hsent]
    refine iff_of_true h ?_
    cases a with
    | send answer => exact absurd rfl (hnot answer)
    | _ => trivial
  · have hbytes : transfer.bytes = response.serialize :=
      (hassumed.whole (.sent request response success transfer) (by simp [hlog])).2
    have hhonest : response.Honest := hassumed.honest (request, response) (by
      rw [hlog, exchanges_append]
      simp [exchanges])
    have hexchanges : exchanges t.log = exchanges s.log ++ [(request, response)] := by
      rw [hlog, exchanges_append]
      rfl
    have hsent : sentBytes t.log = sentBytes s.log ++ response.serialize := by
      rw [hlog, sentBytes_append]
      simp [sentBytes, hbytes]
    rw [hexchanges, hsent, List.map_append, List.map_append, List.map_singleton,
      List.map_singleton, readFrames_append_iff readFrame_append h,
      HttpResponse.readFrame_serialize_iff hhonest]
    simp [Frames, Control.toSend, hs]

/-- **The stream stays in frame** in the runs whose responses are all framed,
and only in these. -/
theorem inFrame_iff {c : Connection} {as : List Action} {s : State}
    (h : (machine c).run (machine c).init as = some s) (hassumed : Assumed s.log) :
    (∀ t, (machine c).Passes (machine c).init as t → InFrame t) ↔
      (machine c).Along Frames (machine c).init as := by
  have hpassed : ∀ t, (machine c).Passes (machine c).init as t → Assumed t.log := fun t ht =>
    hassumed.of_prefix (log_prefix_of_reaches (ht.reaches h))
  constructor
  · intro hframe
    refine Machine.along_of_passes (I := fun _ => True) (Q := fun t => Assumed t.log ∧ InFrame t)
      (fun _ _ _ _ _ => trivial) (fun u a t _ hu hst hnot ht => ?_) h trivial
      fun t ht => ⟨hpassed t ht, hframe t ht⟩
    exact hnot ((recovered_step_iff ht.1 hu.2.recovered (.of_step hst)).mp ht.2.recovered)
  · intro halong t ht
    refine ⟨?_, (Conserved.of_reachable ht.reachable).sent⟩
    have hrecovered := ht.along (I := fun u => Assumed u.log →
      readFrames readFrame ((exchanges u.log).map fun x => x.1.method) (sentBytes u.log) =
        some ((exchanges u.log).map fun x => x.2.frame x.1.method, []))
      (fun u a v hu hframes hst hv => ?_) halong fun _ => rfl
    · exact hrecovered (hpassed t ht)
    · have hassumed' := hv.of_prefix (log_prefix_step (.of_step hst))
      exact (recovered_step_iff hv (hu hassumed') (.of_step hst)).mpr hframes

/-- One request and its response. -/
theorem inFrame_iff_get :
    ∃ s, (machine (.make ⟨3⟩ false {} 5)).run (machine (.make ⟨3⟩ false {} 5)).init
        [.run, .loopTest, .parse, .receive (.data (ascii "GET / HTTP/1.1\r\nHost: a\r\n\r\n")),
          .parse, .handle (some (.ok (ascii "hi"))), .send (.taken 1000)] = some s ∧
      InFrame s := by
  obtain ⟨s, hs, hassumed⟩ := Option.map_eq_some_iff.mp (show
    ((machine (.make ⟨3⟩ false {} 5)).run (machine (.make ⟨3⟩ false {} 5)).init
      [.run, .loopTest, .parse, .receive (.data (ascii "GET / HTTP/1.1\r\nHost: a\r\n\r\n")),
        .parse, .handle (some (.ok (ascii "hi"))), .send (.taken 1000)]).map
      (fun s : State => decide (WritesComplete s.log ∧ ∀ x ∈ exchanges s.log, x.2.Honest)) =
      some true by decide +kernel)
  obtain ⟨hwhole, hhonest⟩ := of_decide_eq_true hassumed
  exact ⟨s, hs, (inFrame_iff hs ⟨hwhole, hhonest⟩).mpr (by decide +kernel) s (.of_run hs)⟩

/-- A HEAD request for a path without a route: the body of the router's own
404 is taken for the next response. -/
theorem not_inFrame_head :
    ¬ ∀ (c : Connection) (as : List Action) (s : State),
      (machine c).run (machine c).init as = some s → Assumed s.log →
        ∀ t, (machine c).Passes (machine c).init as t → InFrame t := by
  intro h
  obtain ⟨s, hs, hchecked⟩ := Option.map_eq_some_iff.mp (show
    ((machine (.make ⟨3⟩ false {} 5)).run (machine (.make ⟨3⟩ false {} 5)).init
      [.run, .loopTest, .parse, .receive (.data (ascii "HEAD / HTTP/1.1\r\nHost: a\r\n\r\n")),
        .parse, .handle (some .notFound), .send (.taken 1000)]).map
      (fun s : State => decide ((WritesComplete s.log ∧ ∀ x ∈ exchanges s.log, x.2.Honest) ∧
        (readFrames readFrame ((exchanges s.log).map fun x => x.1.method)
          (sentBytes s.log)).map Prod.snd = some (ascii "Not Found"))) =
      some true by decide +kernel)
  obtain ⟨⟨hwhole, hhonest⟩, hleft⟩ := of_decide_eq_true hchecked
  have hframe := h _ _ s hs ⟨hwhole, hhonest⟩ s (.of_run hs)
  have hne : ([] : Bytes) ≠ ascii "Not Found" := by decide
  rw [hframe.recovered] at hleft
  exact hne (Option.some.inj hleft)

end Session

end HttpsServer
