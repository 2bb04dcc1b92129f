import HttpsServer.Router

/-!
# HttpsServer.Handlers

The request handlers of `main.cpp`: `url_decode`, `html_escape`, `form_value`,
the three pages and the routes that `main` gives them.
-/

namespace HttpsServer

/-! ## url_decode -/

/-- `std::isxdigit`. -/
def isXDigit (b : UInt8) : Bool := isDigit b || (97 ≤ b && b ≤ 102) || (65 ≤ b && b ≤ 70)

/-- The lambda `hex_value`. -/
def hexValue (character : UInt8) : Nat :=
  if 48 ≤ character ∧ character ≤ 57 then character.toNat - 48
  else if 97 ≤ character ∧ character ≤ 102 then character.toNat - 97 + 10
  else character.toNat - 65 + 10

/-- `url_decode` from the current index on. -/
def urlDecode : Bytes → Bytes
  | [] => []
  | b :: rest =>
    if b = 43 then 32 :: urlDecode rest
    else
      match rest with
      | high :: low :: after =>
        if b = 37 ∧ isXDigit high ∧ isXDigit low then
          (hexValue high * 16 + hexValue low).toUInt8 :: urlDecode after
        else b :: urlDecode (high :: low :: after)
      | rest => b :: urlDecode rest

/-! ## html_escape -/

/-- The `switch` of `html_escape`. -/
def escapeCharacter (character : UInt8) : Bytes :=
  if character = 38 then ascii "&amp;"
  else if character = 60 then ascii "&lt;"
  else if character = 62 then ascii "&gt;"
  else if character = 34 then ascii "&quot;"
  else if character = 39 then ascii "&#39;"
  else if character = LF then ascii "<br>"
  else if character = CR then []
  else [character]

def htmlEscape (value : Bytes) : Bytes := value.flatMap escapeCharacter

/-! ## form_value -/

/-- `body.find('&', start)`. -/
def findAmpersand (body : Bytes) (start : Nat) : Option Nat :=
  ((body.drop start).idxOf? 38).map (· + start)

theorem findAmpersand_ge {body : Bytes} {start i : Nat} (h : findAmpersand body start = some i) :
    start ≤ i := by
  obtain ⟨k, -, rfl⟩ := Option.map_eq_some_iff.1 h
  exact Nat.le_add_left start k

/-- What the loop returns at a field: its value, if it has the name. -/
def fieldValue (field name : Bytes) : Option Bytes :=
  match field.idxOf? 61 with
  | none => none
  | some separator =>
    if field.take separator = name then some (urlDecode (field.drop (separator + 1))) else none

/-- The loop of `form_value`, from the field that begins at `start`. -/
def formValueFrom (body name : Bytes) (start : Nat) : Bytes :=
  if start ≤ body.length then
    match _h : findAmpersand body start with
    | none => (fieldValue ((body.drop start).take (body.length - start)) name).getD []
    | some fieldEnd =>
      match fieldValue ((body.drop start).take (fieldEnd - start)) name with
      | some value => value
      | none => formValueFrom body name (fieldEnd + 1)
  else []
termination_by body.length + 1 - start
decreasing_by
  have := findAmpersand_ge _h
  omega

def formValue (body name : Bytes) : Bytes := formValueFrom body name 0

/-! ## Pages -/

def healthHandler (_ : HttpRequest) : HttpResponse :=
  (HttpResponse.ok (ascii "\x7b\"status\":\"ok\"\x7d")).setContentType (ascii "application/json")

def rootHandler (_ : HttpRequest) : HttpResponse :=
  (HttpResponse.ok (ascii ("<!doctype html><html><head><meta charset=\"utf-8\">" ++
    "<title>CPP Server</title></head>" ++
    "<body><h1>CPP Server</h1><form method=\"post\" action=\"/print\">" ++
    "<label for=\"message\">What should be printed?</label><br>" ++
    "<textarea id=\"message\" name=\"message\" rows=\"5\" cols=\"50\" required></textarea><br>" ++
    "<button type=\"submit\">Print</button></form></body></html>"))).setContentType
      (ascii "text/html; charset=utf-8")

/-- The page of `print_handler` before the message. -/
def printPageHead : Bytes :=
  ascii ("<!doctype html><html><head><meta charset=\"utf-8\"><title>Printed text</title></head>" ++
    "<body><h1>Your text</h1><p>")

/-- The page of `print_handler` after the message. -/
def printPageTail : Bytes :=
  ascii "</p><p><a href=\"/\">Print another message</a></p></body></html>"

def printHandler (request : HttpRequest) : HttpResponse :=
  let message := formValue request.body (ascii "message")
  (HttpResponse.ok (printPageHead ++ htmlEscape message ++ printPageTail)).setContentType
    (ascii "text/html; charset=utf-8")

/-- The router after the registrations of `main`; `slack` is the room that each
of them leaves in the table. -/
def mainRouter (slack : Fin 3 → Nat) : Router (HttpRequest → HttpResponse) :=
  ((Router.make.get (ascii "/") rootHandler (slack 0)).get (ascii "/health") healthHandler
    (slack 1)).post (ascii "/print") printHandler (slack 2)

end HttpsServer
