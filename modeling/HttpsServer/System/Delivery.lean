import HttpsServer.Connection.Conversation
import HttpsServer.Connection.Ending
import HttpsServer.Handlers.Site
import HttpsServer.System.Service

/-!
# HttpsServer.System.Delivery

The site of `main`, from one end of a connection to the other.

A client sends whole requests without waiting for the answers, none of them over a
limit and none with a body that begins with a CRLF; the network cuts what it
sends, the server has other clients to serve, and the client reads what comes
back: page after page, in the order of its requests (`site_delivered`).
The server does not close the connection on a request that has arrived, unless the
one before it does not keep the connection (`site_completed`).
-/

namespace HttpsServer.System

variable {setup : Setup} {s : State}

/-- The client of a request that is not a HEAD expects a body. -/
theorem endsAtHead_mainPage {request : HttpRequest} {method : HttpMethod} (h : method ≠ .head) :
    endsAtHead method (mainPage request).1 = false := by
  have hends : ∀ status : StatusCode, status.code / 100 ≠ 1 → status.code ≠ 204 →
      endsAtHead method status = false := by
    intro status hinformational hempty
    simp [endsAtHead, h, hinformational, hempty]
  have hunder : ∀ served page, endsAtHead method (pageUnder served page request).1 = false := by
    intro served page
    unfold pageUnder
    split
    · exact hends .ok (by decide) (by decide)
    · exact hends .methodNotAllowed (by decide) (by decide)
  unfold mainPage
  split
  · exact hunder _ _
  split
  · exact hunder _ _
  split
  · exact hunder _ _
  · exact hends .notFound (by decide) (by decide)

/-- The client reads a response of the site back as its page. -/
theorem readFrame_of_shows {request : HttpRequest} {response : HttpResponse}
    (h : Shows response (mainPage request)) {method : HttpMethod} (hmethod : method ≠ .head) :
    readFrame method response.serialize = some (mainPage request, []) := by
  have hends : endsAtHead method response.status = false := by
    rw [h.status]
    exact endsAtHead_mainPage hmethod
  have hframe : response.frame method = mainPage request := by
    rw [HttpResponse.frame, hends, if_neg Bool.false_ne_true, h.status, h.body]
  rw [← hframe]
  exact (HttpResponse.readFrame_serialize_iff h.plain.honest).2 (h.plain.framed hends)

/-- What a client reads back when these requests have been answered. -/
theorem readFrames_answered {slack : Fin 3 → Nat} (hroute : setup.route = mainRoute slack)
    {session : Session.State} (hserved : Served setup session)
    (hconserved : Session.Conserved session) (hwhole : Session.WritesComplete session.log)
    {answered : List ClientRequest} (hmethods : ∀ r ∈ answered, r.line.method ≠ .head)
    (hanswered : answered.map ClientRequest.request =
      (Session.exchanges session.log).map Prod.fst) :
    readFrames readFrame (answered.map fun r => r.line.method) (Session.sentBytes session.log) =
      some (answered.map fun r => mainPage r.request, []) := by
  have hframes : ∀ x ∈ Session.exchanges session.log,
      readFrame x.1.method x.2.serialize = some (mainPage x.1, []) := by
    intro x hx
    obtain ⟨response, hresponse, hshows⟩ := mainRoute_answers slack x.1
    have hrouted := hserved.exchanged hconserved x hx
    rw [hroute, hresponse] at hrouted
    cases hrouted
    obtain ⟨r, hr, hx⟩ := List.mem_map.1 (hanswered ▸ List.mem_map_of_mem hx)
    rw [← hx] at hshows ⊢
    exact readFrame_of_shows hshows (hmethods r hr)
  have hmethod : (answered.map fun r => r.line.method) =
      (Session.exchanges session.log).map fun x => x.1.method := by
    have := congrArg (List.map HttpRequest.method) hanswered
    rwa [List.map_map, List.map_map] at this
  have hpages : (answered.map fun r => mainPage r.request) =
      (Session.exchanges session.log).map fun x => mainPage x.1 := by
    have := congrArg (List.map mainPage) hanswered
    rwa [List.map_map, List.map_map] at this
  rw [Session.sentBytes_of_writesComplete hwhole, hmethod, hpages]
  exact readFrames_flatMap readFrame_append hframes

/-- **The site reaches its clients**: where a client sends whole requests within
the limits, no body begins with the CRLF that `parse` steps over, and no read ends
where the beginning of a request is misread, none of them is rejected and they are
answered in their order, the last one at most being unanswered; what the client
reads back are their pages and nothing else; and when the server waits for more it
has answered every request that has arrived. -/
theorem site_delivered {slack : Fin 3 → Nat} (hroute : setup.route = mainRoute slack)
    (h : (machine setup).Reachable s) {c : Nat} {o : Object} (hc : s.objects[c]? = some o)
    {rs : List ClientRequest} (hmethods : ∀ r ∈ rs, r.line.method ≠ .head)
    (hwithin : ∀ r ∈ rs, r.Within setup.limits) (hbodies : ∀ r ∈ rs, ¬ crlf <+: r.body)
    (hstream : Session.receivedBytes o.session.log <+: ClientRequest.stream rs)
    (hpaced : Session.Paced setup.limits rs o.session.log) :
    Session.Event.rejected ∉ o.session.log ∧
      ∃ answered pending, answered ++ pending <+: rs ∧ pending.length ≤ 1 ∧
        (Session.requests o.session.log).map Prod.fst =
          (answered ++ pending).map ClientRequest.request ∧
        (Session.exchanges o.session.log).map Prod.fst = answered.map ClientRequest.request ∧
        (Session.WritesComplete o.session.log →
          readFrames readFrame (answered.map fun r => r.line.method)
            (Session.sentBytes o.session.log) =
              some (answered.map fun r => mainPage r.request, [])) ∧
        (o.session.control = .receiving → pending = [] ∧ ∀ r, answered ++ [r] <+: rs →
          (Session.receivedBytes o.session.log).length <
            (ClientRequest.stream (answered ++ [r])).length) := by
  obtain ⟨fd, -, hsession⟩ := session_reachable h hc
  have hserved := Served.of_reachable h hc
  have hconserved := Session.Conserved.of_reachable hsession
  have hexact := Session.Exact.of_reachable hsession rfl
  have harrived : Session.Arrived setup.limits rs o.session.log :=
    ⟨hwithin, hbodies, hstream, hpaced⟩
  have hconversing : Session.Conversing setup.limits rs o.session :=
    .of_reachable hsession rfl rfl harrived
  obtain ⟨before, after, hrs, htaken⟩ := hconversing.taken
  obtain ⟨pending, hpending, hlast, hwaiting⟩ := hserved.answered hconserved
  have hrequests : (Session.requests o.session.log).map Prod.fst =
      before.map ClientRequest.request := by
    rw [htaken, List.map_map]
    rfl
  obtain ⟨answered, rest, rfl, hanswered, hrest⟩ :=
    List.map_eq_append_iff.1 (hrequests.symm.trans hpending)
  have hbegins : answered ++ rest <+: rs := hrs ▸ List.prefix_append _ _
  refine ⟨hconversing.accepted, answered, rest, hbegins, ?_, hrequests, hanswered.symm,
    fun hwhole => ?_, fun hcontrol => ?_⟩
  · rw [← List.length_map, hrest]
    exact hlast
  · exact readFrames_answered hroute hserved hconserved hwhole
      (fun r hr => hmethods r (hbegins.subset (List.mem_append_left _ hr))) hanswered
  · obtain rfl : rest = [] := by
      rw [hwaiting hcontrol] at hrest
      exact List.map_eq_nil_iff.1 hrest
    rw [List.append_nil] at htaken
    exact ⟨rfl, fun r hr => hexact.lt_of_more hconversing.limits_eq
      ((Session.Ending.of_reachable hsession).waiting hcontrol) hr htaken harrived⟩

/-! ## The end of a connection -/

/-- Only a handler throws. -/
theorem route_of_threw (h : (machine setup).Reachable s) {c : Nat} {o : Object}
    (hc : s.objects[c]? = some o) :
    ∀ request, Session.Event.threw request ∈ o.session.log → setup.route request = none := by
  refine objects_invariant (P := fun session => ∀ request,
      Session.Event.threw request ∈ session.log → setup.route request = none)
    (fun _ _ _ hmem => absurd hmem List.not_mem_nil)
    (fun session b session' hbefore hlawful hstep request hmem => ?_) h hc
  cases Session.Step.of_step hstep with
  | @threw thrown hs =>
      obtain ⟨request', hrequest, hnone⟩ := hlawful
      cases hs.symm.trans hrequest
      rcases List.mem_append.1 hmem with hold | hnew
      · exact hbefore request hold
      · cases List.mem_singleton.1 hnew
        exact hnone.symm
  | handshaken _ =>
      rcases List.mem_append.1 hmem with hold | hnew
      · exact hbefore request hold
      · obtain ⟨success, hevent⟩ := Session.mem_handshaken hnew
        cases hevent
  | closed | entered | continued | left | wanting => exact hbefore request hmem
  | _ =>
      rcases List.mem_append.1 hmem with hold | hnew
      · exact hbefore request hold
      · cases List.mem_singleton.1 hnew

/-- **No request is dropped at the end**: where a client sends such requests, the
server closes the connection when it has answered every request that has arrived,
or the last one it has answered does not keep the connection. -/
theorem site_completed {slack : Fin 3 → Nat} (hroute : setup.route = mainRoute slack)
    (h : (machine setup).Reachable s) {c : Nat} {o : Object} (hc : s.objects[c]? = some o)
    {rs : List ClientRequest} (hmethods : ∀ r ∈ rs, r.line.method ≠ .head)
    (hwithin : ∀ r ∈ rs, r.Within setup.limits) (hbodies : ∀ r ∈ rs, ¬ crlf <+: r.body)
    (hstream : Session.receivedBytes o.session.log <+: ClientRequest.stream rs)
    (hpaced : Session.Paced setup.limits rs o.session.log)
    (hwhole : Session.WritesComplete o.session.log)
    (hread : Session.receivedBytes o.session.log ≠ [])
    (hover : Session.Event.returned ∈ o.session.log) :
    ∃ answered, answered <+: rs ∧
      (Session.requests o.session.log).map Prod.fst = answered.map ClientRequest.request ∧
      readFrames readFrame (answered.map fun r => r.line.method)
        (Session.sentBytes o.session.log) = some (answered.map fun r => mainPage r.request, []) ∧
      ((∀ r, answered ++ [r] <+: rs → (Session.receivedBytes o.session.log).length <
          (ClientRequest.stream (answered ++ [r])).length) ∨
        ∃ r, answered.getLast? = some r ∧
          o.session.connection.shouldKeepAlive r.request = false) := by
  obtain ⟨fd, -, hsession⟩ := session_reachable h hc
  have hserved := Served.of_reachable h hc
  have hconserved := Session.Conserved.of_reachable hsession
  have harrived : Session.Arrived setup.limits rs o.session.log :=
    ⟨hwithin, hbodies, hstream, hpaced⟩
  have hconversing : Session.Conversing setup.limits rs o.session :=
    .of_reachable hsession rfl rfl harrived
  have hthrows : ∀ request, Session.Event.threw request ∉ o.session.log := by
    intro request hmem
    obtain ⟨response, hresponse, -⟩ := mainRoute_answers slack request
    have hnone := route_of_threw h hc request hmem
    rw [hroute, hresponse] at hnone
    cases hnone
  obtain ⟨answered, after, hrs, htaken⟩ := hconversing.taken
  have hbegins : answered <+: rs := hrs ▸ List.prefix_append _ _
  have hrequests : (Session.requests o.session.log).map Prod.fst =
      answered.map ClientRequest.request := by
    rw [htaken, List.map_map]
    rfl
  have hanswered : answered.map ClientRequest.request =
      (Session.exchanges o.session.log).map Prod.fst := by
    obtain ⟨hhandle, hsend⟩ := (Session.Orderly.of_reachable hsession).idle hover
    rw [← hrequests, hconserved.handled, hhandle, List.append_nil,
      Session.calls_of_not_threw hthrows, hconserved.sent, hsend, List.append_nil]
  refine ⟨answered, hbegins, hrequests, readFrames_answered hroute hserved hconserved hwhole
    (fun r hr => hmethods r (hbegins.subset hr)) hanswered, ?_⟩
  cases (Session.Ending.of_reachable hsession).reason (.inl hover) with
  | unread hnone => exact absurd hnone hread
  | @exception e he hescapes =>
      cases e with
      | rejected => exact absurd he hconversing.accepted
      | threw request => exact absurd he (hthrows request)
      | _ => cases hescapes
  | @writeFailed e he hfailed =>
      cases e with
      | sent request response success transfer =>
          obtain ⟨rfl, -⟩ := hwhole _ he
          cases hfailed
      | _ => cases hfailed
  | streamEnded hmore =>
      exact .inl fun r hr => (Session.Exact.of_reachable hsession rfl).lt_of_more
        hconversing.limits_eq hmore hr htaken harrived
  | @notKept x hlast hnot =>
      have hsame := congrArg List.getLast? hanswered
      rw [List.getLast?_map, List.getLast?_map, hlast, Option.map_some,
        Option.map_eq_some_iff] at hsame
      obtain ⟨r, hr, hx⟩ := hsame
      exact .inr ⟨r, hr, hx ▸ hnot⟩

theorem get_known : methodFromString (ascii "GET") ≠ .unknown := by decide

theorem post_known : methodFromString (ascii "POST") ≠ .unknown := by decide

theorem http11_known : HttpVersion.http11 ≠ .unknown := by decide

/-- A client asks after the health of the server and has a text printed. -/
def visit : List ClientRequest :=
  [{ line := ⟨ascii "GET", ascii "/health", .http11, get_known, by decide, http11_known, by decide⟩
     lines := []
     body := []
     announced := .inr ⟨rfl, rfl⟩ },
   { line := ⟨ascii "POST", ascii "/print", .http11, post_known, by decide, http11_known, by decide⟩
     lines := [contentLengthLine 10]
     body := ascii "message=hi"
     announced := .inl (by decide +kernel) }]

theorem visit_within : ∀ r ∈ visit, r.Within {} := by
  rw [visit, List.forall_mem_cons, List.forall_mem_singleton]
  exact ⟨⟨by decide +kernel, by decide +kernel, by decide +kernel⟩,
    ⟨by decide +kernel, by decide +kernel, by decide +kernel⟩⟩

theorem visit_bodies : ∀ r ∈ visit, ¬ crlf <+: r.body := by
  rw [visit, List.forall_mem_cons, List.forall_mem_singleton]
  exact ⟨not_crlf_of_head? (by decide), not_crlf_of_head? (by decide)⟩

def visited : Setup where
  workers := 1
  tlsEnabled := true
  limits := {}
  keepAliveTimeoutSeconds := 5
  route := mainRoute fun _ => 0

/-- The stream is cut inside the body of the second request, and ends behind it. -/
def visitedRun : List Action :=
  takenRun ++
    [.run 0 .enter, .run 0 .loopTest, .run 0 .parse,
      .run 0 (.receive (.data ((ClientRequest.stream visit).take 76))), .run 0 .parse,
      .run 0 .handle, .run 0 (.send (.taken 1000)), .run 0 .loopTest, .run 0 .parse,
      .run 0 (.receive (.data ((ClientRequest.stream visit).drop 76))), .run 0 .parse,
      .run 0 .handle, .run 0 (.send (.taken 1000)), .run 0 .loopTest, .run 0 .parse,
      .run 0 (.receive (.data [])), .run 0 .leave]

/-- No read ends inside a head. -/
theorem not_mistakable_visit :
    ∀ n ∈ [0, 76, 78], ¬ ClientRequest.Mistakable {} visit n := by
  have hcut : ¬ ClientRequest.Mistakable {} visit 76 := by
    obtain ⟨v, hv, hclosed⟩ := Option.map_eq_some_iff.1 (show
      (headView ((ClientRequest.stream visit).drop 24 |>.take 52)).map HeadView.ending =
        some (.closed (ascii "message=")) by decide +kernel)
    exact not_misread_of_closed hv hclosed
  simp only [List.forall_mem_cons]
  exact ⟨ClientRequest.not_mistakable_stream {} [] visit, hcut,
    ClientRequest.not_mistakable_stream {} visit [], List.forall_mem_nil _⟩

/-- Two exchanges, and the end. -/
theorem exists_visited :
    ∃ s o, (machine visited).run (machine visited).init visitedRun = some s ∧
      s.objects[(0 : Nat)]? = some o ∧
      Session.receivedBytes o.session.log = ClientRequest.stream visit ∧
      Session.Paced {} visit o.session.log ∧ Session.WritesComplete o.session.log ∧
      Session.Event.returned ∈ o.session.log ∧ (Session.requests o.session.log).length = 2 ∧
      (Session.exchanges o.session.log).length = 2 := by
  obtain ⟨s, hs, hobjects⟩ := Option.map_eq_some_iff.1 (show
    ((machine visited).run (machine visited).init visitedRun).map
      (fun s => s.objects.map fun o => decide (
        Session.receivedBytes o.session.log = ClientRequest.stream visit ∧
        (∀ log ∈ o.session.log.inits, (Session.receivedBytes log).length ∈ [0, 76, 78]) ∧
        Session.WritesComplete o.session.log ∧
        o.session.log.any (fun e => e.endsRun && !e.escapes) = true ∧
        (Session.requests o.session.log).length = 2 ∧
        (Session.exchanges o.session.log).length = 2)) = some [true] by decide +kernel)
  obtain ⟨o, ho, hone⟩ := List.map_eq_singleton_iff.1 hobjects
  obtain ⟨hreceived, hreads, hwhole, hends, hrequests, hexchanges⟩ := of_decide_eq_true hone
  obtain ⟨e, he, hends⟩ := List.any_eq_true.1 hends
  have hreturned : e = .returned := by
    cases e with
    | returned => rfl
    | _ => cases hends
  exact ⟨s, o, hs, by rw [ho]; rfl, hreceived, fun before hbefore =>
    not_mistakable_visit _ (hreads before ((List.mem_inits _ _).2 hbefore)), hwhole,
    hreturned ▸ he, hrequests, hexchanges⟩

theorem site_delivered_visit :
    ∃ s o, (machine visited).run (machine visited).init visitedRun = some s ∧
      s.objects[(0 : Nat)]? = some o ∧
      readFrames readFrame (visit.map fun r => r.line.method) (Session.sentBytes o.session.log) =
        some (visit.map fun r => mainPage r.request, []) := by
  obtain ⟨s, o, hs, hc, hreceived, hpaced, hwhole, -, -, hexchanges⟩ := exists_visited
  have hreach : (machine visited).Reachable s := ⟨visitedRun, hs⟩
  have hmethods : ∀ r ∈ visit, r.line.method ≠ .head := by decide
  obtain ⟨-, answered, pending, hbegins, -, -, hanswered, hpages, -⟩ :=
    site_delivered rfl hreach hc hmethods visit_within visit_bodies
      (hreceived ▸ List.prefix_refl _) hpaced
  have hall : answered = visit := by
    refine ((List.prefix_append _ _).trans hbegins).eq_of_length ?_
    rw [← List.length_map (f := ClientRequest.request), ← hanswered, List.length_map, hexchanges]
    rfl
  subst hall
  exact ⟨s, o, hs, hc, hpages hwhole⟩

theorem site_completed_visit :
    ∃ s o, (machine visited).run (machine visited).init visitedRun = some s ∧
      s.objects[(0 : Nat)]? = some o ∧
      (Session.requests o.session.log).map Prod.fst = visit.map ClientRequest.request := by
  obtain ⟨s, o, hs, hc, hreceived, hpaced, hwhole, hreturned, hrequests, -⟩ := exists_visited
  have hreach : (machine visited).Reachable s := ⟨visitedRun, hs⟩
  have hmethods : ∀ r ∈ visit, r.line.method ≠ .head := by decide
  obtain ⟨answered, hbegins, hanswered, -, -⟩ :=
    site_completed rfl hreach hc hmethods visit_within visit_bodies
      (hreceived ▸ List.prefix_refl _) hpaced hwhole (hreceived ▸ by decide +kernel) hreturned
  have hall : answered = visit := by
    refine hbegins.eq_of_length ?_
    rw [← List.length_map (f := ClientRequest.request), ← hanswered, List.length_map, hrequests]
    rfl
  exact ⟨s, o, hs, hc, hall ▸ hanswered⟩

end HttpsServer.System
