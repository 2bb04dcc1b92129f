import HttpsServer.Request

/-!
# HttpsServer.Response

`HttpResponse` (`response.hpp`, `response.cpp`): the status codes with their
phrases, the setters, the factories and `serialize`.

`serialize` goes over the header map in the order of its iteration.
`serializeIn` takes that order as an argument; `serialize` is the order of the
map at hand.
-/

namespace HttpsServer

/-! ## Status codes -/

inductive StatusCode where
  | «continue»
  | ok
  | created
  | noContent
  | badRequest
  | unauthorized
  | forbidden
  | notFound
  | methodNotAllowed
  | requestTimeout
  | payloadTooLarge
  | uriTooLong
  | internalServerError
  | notImplemented
  | httpVersionNotSupported
  deriving DecidableEq

/-- The number behind an enumerator. -/
def StatusCode.code : StatusCode → Nat
  | .continue => 100
  | .ok => 200
  | .created => 201
  | .noContent => 204
  | .badRequest => 400
  | .unauthorized => 401
  | .forbidden => 403
  | .notFound => 404
  | .methodNotAllowed => 405
  | .requestTimeout => 408
  | .payloadTooLarge => 413
  | .uriTooLong => 414
  | .internalServerError => 500
  | .notImplemented => 501
  | .httpVersionNotSupported => 505

def reasonPhrase : StatusCode → Bytes
  | .continue => ascii "Continue"
  | .ok => ascii "OK"
  | .created => ascii "Created"
  | .noContent => ascii "No Content"
  | .badRequest => ascii "Bad Request"
  | .unauthorized => ascii "Unauthorized"
  | .forbidden => ascii "Forbidden"
  | .notFound => ascii "Not Found"
  | .methodNotAllowed => ascii "Method Not Allowed"
  | .requestTimeout => ascii "Request Timeout"
  | .payloadTooLarge => ascii "Payload Too Large"
  | .uriTooLong => ascii "URI Too Long"
  | .internalServerError => ascii "Internal Server Error"
  | .notImplemented => ascii "Not Implemented"
  | .httpVersionNotSupported => ascii "HTTP Version Not Supported"

/-! ## Header names -/

/-- `to_lower`, the second lower-casing function of the program: it works on
the range `'A'`..`'Z'` itself. -/
def toLower (value : Bytes) : Bytes :=
  value.map fun ch => if 65 ≤ ch ∧ ch ≤ 90 then ch - 65 + 97 else ch

/-- The loop of `title_case_header`, from the byte that stands behind
`previous`. -/
def titleCaseRest (previous : UInt8) : Bytes → Bytes
  | [] => []
  | ch :: rest =>
    let ch := if previous = 45 then toUpperByte ch else ch
    ch :: titleCaseRest ch rest

/-- The first letter and every letter behind a dash in upper case; a name of
one letter is left alone. -/
def titleCaseHeader : Bytes → Bytes
  | [] => []
  | [ch] => [ch]
  | ch :: rest => toUpperByte ch :: titleCaseRest (toUpperByte ch) rest

/-- `serialize` writes these three itself and leaves out the stored ones. -/
def isReserved (name : Bytes) : Bool :=
  let lower := toLower name
  lower = ascii "content-length" || lower = ascii "content-type" || lower = ascii "connection"

/-! ## HttpResponse -/

structure HttpResponse where
  status : StatusCode := .ok
  headers : Headers := {}
  body : Bytes := []
  keepAlive : Bool := true
  deriving DecidableEq

namespace HttpResponse

/-- The constructor that takes a status. -/
def ofStatus (status : StatusCode) : HttpResponse where
  status := status
  headers := Headers.set {} (ascii "Content-Type") (ascii "text/plain; charset=utf-8")

def setStatus (r : HttpResponse) (status : StatusCode) : HttpResponse := { r with status := status }

def setBody (r : HttpResponse) (body : Bytes) : HttpResponse := { r with body := body }

def setContentType (r : HttpResponse) (contentType : Bytes) : HttpResponse :=
  { r with headers := r.headers.set (ascii "Content-Type") contentType }

def setContentLength (r : HttpResponse) (length : Nat) : HttpResponse :=
  { r with headers := r.headers.set (ascii "Content-Length") (toDecimal length) }

def setKeepAlive (r : HttpResponse) (keepAlive : Bool) : HttpResponse :=
  { r with keepAlive := keepAlive }

def setHeader (r : HttpResponse) (name value : Bytes) : HttpResponse :=
  { r with headers := r.headers.set name value }

/-! ### Factories -/

/-- What every factory does: a status, a body and the length of that body. -/
def withBody (status : StatusCode) (body : Bytes) : HttpResponse :=
  ((ofStatus status).setBody body).setContentLength body.length

def ok (body : Bytes) : HttpResponse := withBody .ok body

def created (body : Bytes) : HttpResponse := withBody .created body

def noContent : HttpResponse := withBody .noContent []

def badRequest (body : Bytes := ascii "Bad Request") : HttpResponse := withBody .badRequest body

def notFound (body : Bytes := ascii "Not Found") : HttpResponse := withBody .notFound body

def methodNotAllowed (body : Bytes := ascii "Method Not Allowed") : HttpResponse :=
  withBody .methodNotAllowed body

def internalServerError (body : Bytes := ascii "Internal Server Error") : HttpResponse :=
  withBody .internalServerError body

/-! ### serialize -/

/-- The text after `Content-Length: `. -/
def lengthText (r : HttpResponse) : Bytes :=
  if ¬ r.headers.contains (ascii "Content-Length") then toDecimal r.body.length
  else r.headers.valueOr (ascii "Content-Length")

/-- The text after `Connection: `. -/
def connectionText (r : HttpResponse) : Bytes :=
  if r.keepAlive then ascii "keep-alive" else ascii "close"

/-- One iteration of the loop over the header map. -/
def writeHeader (entry : Bytes × Bytes) : Bytes :=
  if isReserved entry.1 then []
  else titleCaseHeader entry.1 ++ ascii ": " ++ entry.2 ++ crlf

/-- `serialize` when the header map is iterated in the order `all`. -/
def serializeIn (r : HttpResponse) (all : List (Bytes × Bytes)) (version : HttpVersion) : Bytes :=
  ascii "HTTP/" ++ (if version = .http10 then ascii "1.0" else ascii "1.1") ++
    ascii " " ++ toDecimal r.status.code ++ ascii " " ++ reasonPhrase r.status ++ crlf ++
    (ascii "Content-Length: " ++ r.lengthText ++ crlf) ++
    (ascii "Connection: " ++ r.connectionText ++ crlf) ++
    all.flatMap writeHeader ++
    (ascii "Content-Type: " ++ r.headers.valueOr (ascii "Content-Type") ++ crlf) ++
    crlf ++
    (if r.body ≠ [] then r.body else [])

def serialize (r : HttpResponse) (version : HttpVersion := .http11) : Bytes :=
  r.serializeIn r.headers.all version

end HttpResponse

end HttpsServer
