import HttpsServer.Connection.Stream
import HttpsServer.Handlers.Page

/-!
# HttpsServer.Handlers.Site

The answers of the server that `main` sets up.

`mainPage` is the site: for every request a status and a body.  Routing table
and handlers make nothing else of a request, and what `serialize` makes of that
is a response whose client finds its end (`mainRoute_answers`).
-/

namespace HttpsServer

/-! ## Responses without headers of their own -/

theorem Headers.mem_all_set {h : Headers} {name value : Bytes} {e : Bytes × Bytes}
    (he : e ∈ (h.set name value).all) : e = (lowercase name, value) ∨ e ∈ h.all := by
  obtain ⟨key, stored⟩ := e
  have hkey := Headers.lowercase_of_mem_all he
  have hget : (h.set name value).get key = some stored := by
    rw [Headers.get, hkey]
    exact Headers.mem_all.1 he
  rw [Headers.get_set, hkey] at hget
  split at hget
  · next hname =>
    cases hget
    exact .inl (by rw [hname])
  · rw [Headers.get, hkey] at hget
    exact .inr (Headers.mem_all.2 hget)

namespace HttpResponse

/-- Only headers that `serialize` writes by itself are stored, each of them
fits a line, and the stored size is that of the body. -/
structure Plain (r : HttpResponse) : Prop where
  reserved : ∀ e ∈ r.headers.all, isReserved e.1 = true
  headersOk : r.HeadersOk
  sized : r.headers.get (ascii "Content-Length") = some (toDecimal r.body.length)

theorem Plain.lengthText {r : HttpResponse} (h : r.Plain) :
    r.lengthText = toDecimal r.body.length := by
  rw [lengthText_eq, h.sized, Option.getD_some]

theorem Plain.honest {r : HttpResponse} (h : r.Plain) : r.Honest := by
  rw [Honest, h.lengthText]
  exact ⟨isDecimal_toDecimal _, decimalValue_toDecimal _⟩

theorem plain_withBody (status : StatusCode) (body : Bytes) : (withBody status body).Plain := by
  have hdigits : ∀ b ∈ toDecimal body.length, b ≠ CR ∧ b ≠ LF := by
    intro b hb
    have hdigit := (isDecimal_toDecimal body.length).2 b hb
    constructor <;> rintro rfl <;> cases hdigit
  have hall : ∀ e ∈ (withBody status body).headers.all,
      e = (lowercase (ascii "Content-Length"), toDecimal body.length) ∨
        e = (lowercase (ascii "Content-Type"), ascii "text/plain; charset=utf-8") := by
    intro e he
    rcases Headers.mem_all_set he with hlength | he
    · exact .inl hlength
    · rcases Headers.mem_all_set he with htype | he
      · exact .inr htype
      · cases he
  refine ⟨fun e he => ?_, fun e he => ?_, by simp [withBody, setContentLength, Headers.get_set, setBody]⟩
  · rcases hall e he with rfl | rfl <;> dsimp only <;> decide
  · rcases hall e he with rfl | rfl
    · exact ⟨by dsimp only; decide, fun h => (hdigits _ h).1 rfl, fun h => (hdigits _ h).2 rfl⟩
    · decide

theorem Plain.setContentType {r : HttpResponse} (h : r.Plain) {contentType : Bytes}
    (hline : CR ∉ contentType ∧ LF ∉ contentType) : (r.setContentType contentType).Plain := by
  refine ⟨fun e he => ?_, fun e he => ?_, ?_⟩
  · rcases Headers.mem_all_set he with rfl | he
    · dsimp only
      decide
    · exact h.reserved e he
  · rcases Headers.mem_all_set he with rfl | he
    · exact ⟨by dsimp only; decide, hline⟩
    · exact h.headersOk e he
  · have hne : lowercase (ascii "Content-Length") ≠ lowercase (ascii "Content-Type") := by decide
    rw [HttpResponse.setContentType, Headers.get_set, if_neg hne]
    exact h.sized

/-- The line of a name and a value. -/
def plainLine (name value : Bytes) (hname : trimBlanks name ≠ []) (hcolon : 58 ∉ name)
    (hcr : CR ∉ name ∧ CR ∉ value) : HeaderLine where
  name := name
  value := 32 :: value
  name_ok := hname
  colon_ok := hcolon
  line_ok := by
    refine not_crlf_of_cr_notMem ?_
    simp only [List.mem_append, List.mem_cons, not_or]
    exact ⟨hcr.1, by decide, by decide, hcr.2⟩

/-- A reader finds one Content-Length. -/
theorem Plain.valuesOf_shownLines {r : HttpResponse} (h : r.Plain) :
    valuesOf (ascii "content-length") (r.shownLines r.headers.all) = [r.lengthText] := by
  have hoption : CR ∉ r.connectionText := by
    unfold connectionText
    split <;> decide
  have hnone : r.headers.all.filter (fun e => !isReserved e.1) = [] := by
    rw [List.filter_eq_nil_iff]
    intro e he
    simp [h.reserved e he]
  have hlines : r.fieldLines r.headers.all = List.map HeaderLine.bytes
      [plainLine (ascii "Content-Length") r.lengthText (by decide) (by decide)
          ⟨by decide, cr_notMem_lengthText h.headersOk⟩,
        plainLine (ascii "Connection") r.connectionText (by decide) (by decide) ⟨by decide, hoption⟩,
        plainLine (ascii "Content-Type") (r.headers.valueOr (ascii "Content-Type")) (by decide)
          (by decide) ⟨by decide, cr_notMem_valueOr h.headersOk _⟩] := by
    rw [fieldLines, fields, hnone]
    rfl
  have hfirst : trimBlanks (32 :: r.lengthText) = r.lengthText := by
    rw [h.lengthText]
    exact trimBlanks_contentLengthLine _
  rw [(shown_of_unbroken (fieldLines_unbroken h.headersOk fun _ he => he)).1, hlines,
    valuesOf_map_bytes]
  have hcalled : (decide (lowercase (trimBlanks (ascii "Content-Length")) = ascii "content-length") = true) ∧
    (decide (lowercase (trimBlanks (ascii "Connection")) = ascii "content-length") = false) ∧
    (decide (lowercase (trimBlanks (ascii "Content-Type")) = ascii "content-length") = false) := by decide
  simp only [HeaderLine.IsCalled, plainLine, List.filter_cons, hcalled.1, hcalled.2.1, hcalled.2.2,
    if_true, Bool.false_eq_true, if_false, List.filter_nil, List.map_cons, List.map_nil, hfirst]

/-- **The client of a plain response finds its end**, if it expects a body where
there is one. -/
theorem Plain.framed {r : HttpResponse} (h : r.Plain) {method : HttpMethod}
    (hmethod : endsAtHead method r.status = false) : r.Framed method := by
  refine ⟨(shown_of_unbroken (fieldLines_unbroken h.headersOk fun _ he => he)).2, ?_⟩
  rw [hmethod, if_neg Bool.false_ne_true, h.valuesOf_shownLines]
  exact List.forall_mem_singleton.2 rfl

end HttpResponse

/-! ## The site -/

/-- `route` with the table of `main`.  No handler of `main` throws. -/
def mainRoute (slack : Fin 3 → Nat) (request : HttpRequest) : Option HttpResponse :=
  (route (mainRouter slack).values request).response (fun handler request => some (handler request))
    request

/-- What is found under the path of the request, if its method is the one that is
served there. -/
def pageUnder (served : HttpMethod) (page : Bytes) (request : HttpRequest) : StatusCode × Bytes :=
  if request.method = served then (.ok, page)
  else (.methodNotAllowed, ascii "Method Not Allowed")

/-- The form. -/
def formPage : Bytes := (rootHandler {}).body

/-- The printed text. -/
def printPage (message : Bytes) : Bytes := printPageHead ++ htmlEscape message ++ printPageTail

/-- The site that `main` sets up. -/
def mainPage (request : HttpRequest) : StatusCode × Bytes :=
  if request.path = ascii "/" then pageUnder .get formPage request
  else if request.path = ascii "/health" then
    pageUnder .get (ascii "\x7b\"status\":\"ok\"\x7d") request
  else if request.path = ascii "/print" then
    pageUnder .post (printPage (formValue request.body (ascii "message"))) request
  else (.notFound, ascii "Not Found")

/-- A response shows a page. -/
structure Shows (response : HttpResponse) (page : StatusCode × Bytes) : Prop where
  status : response.status = page.1
  body : response.body = page.2
  plain : response.Plain

theorem shows_withBody (status : StatusCode) (body : Bytes) :
    Shows (.withBody status body) (status, body) :=
  ⟨rfl, rfl, HttpResponse.plain_withBody status body⟩

theorem Shows.setContentType {response : HttpResponse} {page : StatusCode × Bytes}
    (h : Shows response page) {contentType : Bytes} (hline : CR ∉ contentType ∧ LF ∉ contentType) :
    Shows (response.setContentType contentType) page :=
  ⟨h.status, h.body, h.plain.setContentType hline⟩

theorem body_rootHandler (request : HttpRequest) : (rootHandler request).body = formPage := rfl

theorem shows_rootHandler (request : HttpRequest) :
    Shows (rootHandler request) (.ok, formPage) := by
  refine ⟨rfl, ?_, ?_⟩
  · dsimp only
    exact body_rootHandler request
  · unfold rootHandler
    exact (HttpResponse.plain_withBody .ok _).setContentType (by decide)

theorem shows_healthHandler (request : HttpRequest) :
    Shows (healthHandler request) (.ok, ascii "\x7b\"status\":\"ok\"\x7d") :=
  (shows_withBody .ok _).setContentType (by decide)

theorem shows_printHandler (request : HttpRequest) :
    Shows (printHandler request) (.ok, printPage (formValue request.body (ascii "message"))) :=
  (shows_withBody .ok _).setContentType (by decide)

/-- What is served under one path and one method only. -/
theorem route_of_only {H : Type} {routes : List (Route H)} {r : Route H} {request : HttpRequest}
    (hr : r ∈ routes) (honly : ∀ r' ∈ routes, r'.path = request.path → r' = r)
    (hpath : r.path = request.path) :
    route routes request = if request.method = r.method then .handler r.handler
      else .methodNotAllowed := by
  have hmatch : ∀ r' ∈ routes, r'.matches request.method request.path = true →
      r' = r ∧ request.method = r.method := by
    intro r' hr' hmatches
    simp only [Route.matches, Bool.and_eq_true, decide_eq_true_eq] at hmatches
    obtain rfl := honly r' hr' hmatches.2
    exact ⟨rfl, hmatches.1.symm⟩
  cases hfind : routes.find? (Route.matches request.method request.path) with
  | some r' =>
      obtain ⟨rfl, hmethod⟩ := hmatch r' (List.mem_of_find?_eq_some hfind) (List.find?_some hfind)
      rw [route_of_find hfind, if_pos hmethod]
  | none =>
      have hmethod : request.method ≠ r.method := fun hmethod =>
        List.find?_eq_none.1 hfind r hr (by simp [Route.matches, hmethod, hpath])
      rw [route_of_not_found hfind, routeMissed, if_neg hmethod,
        if_pos (List.any_eq_true.2 ⟨r, hr, by simp [hpath]⟩)]

/-- No path is registered twice. -/
theorem nodup_paths (slack : Fin 3 → Nat) : ((mainRouter slack).values.map Route.path).Nodup := by
  rw [values_mainRouter]
  simp only [List.map_cons, List.map_nil]
  decide

/-- **Every request is answered with its page of the site.** -/
theorem mainRoute_answers (slack : Fin 3 → Nat) (request : HttpRequest) :
    ∃ response, mainRoute slack request = some response ∧ Shows response (mainPage request) := by
  have hserved : ∀ (r : Route (HttpRequest → HttpResponse)) (page : Bytes),
      r ∈ (mainRouter slack).values → r.path = request.path →
      Shows (r.handler request) (.ok, page) → ∃ response, mainRoute slack request = some response ∧
        Shows response (pageUnder r.method page request) := by
    intro r page hr hpath hshows
    have honly : ∀ r' ∈ (mainRouter slack).values, r'.path = request.path → r' = r :=
      fun r' hr' hpath' => List.inj_on_of_nodup_map (nodup_paths slack) hr' hr (hpath'.trans hpath.symm)
    rw [mainRoute, route_of_only hr honly hpath, pageUnder]
    split
    · exact ⟨_, rfl, hshows⟩
    · exact ⟨_, rfl, shows_withBody .methodNotAllowed _⟩
  have hvalues := values_mainRouter slack
  unfold mainPage
  split
  · next hpath => exact hserved _ _ (by rw [hvalues]; exact .head _) hpath.symm (shows_rootHandler request)
  split
  · next hpath =>
    exact hserved _ _ (by rw [hvalues]; exact .tail _ (.head _)) hpath.symm
      (shows_healthHandler request)
  split
  · next hpath =>
    exact hserved _ _ (by rw [hvalues]; exact .tail _ (.tail _ (.head _))) hpath.symm
      (shows_printHandler request)
  · next hroot hhealth hprint =>
    have hnone : ∀ r ∈ (mainRouter slack).values, r.path ≠ request.path := by
      rw [hvalues]
      simp only [List.forall_mem_cons]
      exact ⟨Ne.symm hroot, Ne.symm hhealth, Ne.symm hprint, List.forall_mem_nil _⟩
    refine ⟨.notFound, ?_, shows_withBody .notFound _⟩
    rw [mainRoute, route_of_not_found (List.find?_eq_none.2 fun r hr => by
      simp [Route.matches, hnone r hr]), routeMissed, if_neg (by simpa using hnone)]
    rfl

end HttpsServer
