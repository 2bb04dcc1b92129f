import HttpsServer.Handlers.Form
import HttpsServer.Handlers.Markup

/-!
# HttpsServer.Handlers.Page

What a posted form shows: the routing table of `main`, form decoding and HTML
escaping, one after the other.
-/

namespace HttpsServer

theorem values_mainRouter (slack : Fin 3 → Nat) :
    (mainRouter slack).values =
      [⟨.get, ascii "/", rootHandler⟩, ⟨.get, ascii "/health", healthHandler⟩,
        ⟨.post, ascii "/print", printHandler⟩] := by
  rw [mainRouter, Router.post, Router.addRoute, Growable.values_push, Router.get, Router.addRoute,
    Growable.values_push, Router.get, Router.addRoute, Growable.values_push]
  rfl

/-- A request for the form's target goes to `print_handler`. -/
theorem route_print (slack : Fin 3 → Nat) {request : HttpRequest} (hmethod : request.method = .post)
    (hpath : request.path = ascii "/print") :
    route (mainRouter slack).values request = .handler printHandler := by
  refine route_of_find (r := ⟨.post, ascii "/print", printHandler⟩) ?_
  rw [values_mainRouter, hmethod, hpath]
  rfl

/-- **A posted form shows its message**: whichever way a browser writes the
form, the answer is the page with the first message, escaped; it reads back as
that message without its carriage returns. -/
theorem page_of_posted_form (slack : Fin 3 → Nat) (U : Unreserved) {pairs : List (Bytes × Bytes)}
    {request : HttpRequest} (hmethod : request.method = .post)
    (hpath : request.path = ascii "/print") (hform : FormEncodes U pairs request.body)
    (hname : ∀ b ∈ ascii "message", U.mem b = true) :
    ∃ handler shown, route (mainRouter slack).values request = .handler handler ∧
      (handler request).body = printPageHead ++ shown ++ printPageTail ∧ Inert shown ∧
      unescape shown =
        withoutCR (((firstUnder Prod.fst (ascii "message") pairs).map Prod.snd).getD []) := by
  obtain ⟨fields, hfields, hbody⟩ := hform
  refine ⟨printHandler, htmlEscape (formValue request.body (ascii "message")),
    route_print slack hmethod hpath, body_printHandler request, inert_htmlEscape _, ?_⟩
  rw [unescape_htmlEscape, hbody, formValue_fields hfields hname]

/-- The message `<b> &`, with its brackets and the ampersand as escapes. -/
def postedMarkup : HttpRequest where
  method := .post
  target := ascii "/print"
  body := ascii "message=%3Cb%3E+%26"

theorem page_of_posted_form_markup :
    ∃ handler shown, route (mainRouter fun _ => 0).values postedMarkup = .handler handler ∧
      (handler postedMarkup).body = printPageHead ++ shown ++ printPageTail ∧ Inert shown ∧
      unescape shown = ascii "<b> &" := by
  have name : Spells (NameWord .uri) (ascii "message") (ascii "message") :=
    .cons (NameWord.plain rfl) (.cons (NameWord.plain rfl) (.cons (NameWord.plain rfl)
      (.cons (NameWord.plain rfl) (.cons (NameWord.plain rfl) (.cons (NameWord.plain rfl)
        (.cons (NameWord.plain rfl) .nil))))))
  have value : Spells ValueWord (ascii "<b> &") (ascii "%3Cb%3E+%26") :=
    .cons (ValueWord.escape true true) (.cons (ValueWord.literal (by decide))
      (.cons (ValueWord.escape true true) (.cons ValueWord.space
        (.cons (ValueWord.escape true true) .nil))))
  have field : FieldEncodes .uri (ascii "message", ascii "<b> &") (ascii "message=%3Cb%3E+%26") :=
    ⟨ascii "message", ascii "%3Cb%3E+%26", name, value, by decide⟩
  exact page_of_posted_form (fun _ => 0) .uri rfl (by decide)
    ⟨[ascii "message=%3Cb%3E+%26"], .cons field .nil, by decide⟩ (List.all_eq_true.1 rfl)

end HttpsServer
