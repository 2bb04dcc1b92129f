import HttpsServer.Request

/-!
# HttpsServer.Parser

`HttpParser::parse` (`parser.cpp`), as the code computes it: offsets into
the whole of `data`, slices taken by `substr`, one running header state.

The function can stop in three ways: it returns a result without a request
(`Exit.failed`), a `substr` or `compare` of the standard library throws
because its position is past the end (`Exit.outOfRange`), or it runs to its
end.  `parse` turns the first and the last into a `ParseResult` and keeps the
exception apart.
-/

namespace HttpsServer

/-! ## Results -/

structure ParseResult where
  request : Option HttpRequest := none
  error : ParseError := .none
  consumed : Nat := 0
  deriving DecidableEq

def ParseResult.success (r : ParseResult) : Bool := r.request.isSome && r.error = .none

/-- How the body of `parse` is left before its end. -/
inductive Exit where
  /-- `return result` with an error set -/
  | failed (result : ParseResult)
  /-- `std::out_of_range` -/
  | outOfRange
  deriving DecidableEq

abbrev ParseM := Except Exit

/-- `result.error = e; return result;` -/
def fail {α : Type} (e : ParseError) : ParseM α := .error (.failed { error := e })

/-- `std::string_view::substr`. -/
def substr (s : Bytes) (pos n : Nat) : ParseM Bytes :=
  match substr? s pos n with
  | some t => pure t
  | none => .error .outOfRange

/-! ## The request line -/

/-- The request line, cut at its first and its last blank. -/
def parseRequestLine (requestLine : Bytes) : ParseM (HttpMethod × Bytes × HttpVersion) :=
  match requestLine.idxOf? 32, rfindChar 32 requestLine with
  | some methodEnd, some targetEnd =>
    if methodEnd = targetEnd then fail .invalidRequestLine
    else do
      let methodToken ← substr requestLine 0 methodEnd
      let targetToken ← substr requestLine (methodEnd + 1) (targetEnd - methodEnd - 1)
      let versionToken ← substr requestLine (targetEnd + 1) requestLine.length
      let method := methodFromString methodToken
      if method = .unknown then fail .invalidMethod
      else if targetToken.head? ≠ some 47 then fail .invalidTarget
      else
        let version := versionFromString versionToken
        if version = .unknown then fail .invalidVersion
        else pure (method, targetToken, version)
  | _, _ => fail .invalidRequestLine

/-! ## Header lines -/

/-- Name and value of one header line, both trimmed. -/
def parseHeaderLine (headerLine : Bytes) : ParseM (Bytes × Bytes) :=
  match headerLine.idxOf? 58 with
  | none => fail .invalidHeader
  | some colon => do
    let name ← substr headerLine 0 colon
    let value ← substr headerLine (colon + 1) headerLine.length
    if trimBlanks name = [] then fail .invalidHeader
    else pure (trimBlanks name, trimBlanks value)

/-- What the header loop carries besides the cursor. -/
structure HeaderState where
  headers : Headers := {}
  headerBytes : Nat := 0
  contentLengthValue : Bytes := []
  deriving DecidableEq

/-- One iteration of the header loop on a line that is not empty. -/
def addHeader (limits : ParseLimits) (st : HeaderState) (headerLine : Bytes) :
    ParseM HeaderState := do
  let (name, value) ← parseHeaderLine headerLine
  let headerBytes := st.headerBytes + (headerLine.length + 2)
  if headerBytes > limits.maxHeaderSize.toNat then fail .headerTooLarge
  else pure {
    headers := st.headers.set name value
    headerBytes := headerBytes
    contentLengthValue :=
      if lowercase name = ascii "content-length" then value else st.contentLengthValue }

/-- The `while (cursor < data.size())` loop; it returns the cursor after it. -/
def headerLoop (limits : ParseLimits) (data : Bytes) (cursor : Nat) (st : HeaderState) :
    ParseM (Nat × HeaderState) :=
  if cursor < data.length then
    match _h : findFrom crlf data cursor with
    | none => pure (cursor, st)
    | some headerEnd => do
      let headerLine ← substr data cursor (headerEnd - cursor)
      if headerLine = [] then pure (headerEnd + 2, st)
      else
        let st ← addHeader limits st headerLine
        headerLoop limits data (headerEnd + 2) st
  else pure (cursor, st)
termination_by data.length - cursor
decreasing_by
  have := findFrom_bounds _h
  omega

/-! ## The body -/

/-- The guards of `parse` behind the header loop. -/
inductive LateGuard where
  /-- `cursor > data.size()` -/
  | cursorPastEnd
  /-- `result.consumed > data.size()` -/
  | consumedPastEnd
  /-- `result.consumed == 0`, and no `Host` in an HTTP/1.1 request -/
  | nothingConsumed
  deriving DecidableEq

/-- What the code does in each of them. -/
def LateGuard.exit (_ : LateGuard) (consumed : Nat) : ParseM ParseResult :=
  .error (.failed { error := .incompleteRequest, consumed := consumed })

/-- From the end of the header loop to the end of `parse`, where `taken` is what
the three guards do.  The unsigned difference `data.size() - body_start` does not
wrap: the first guard keeps the cursor inside `data`, and it moves on only over
two bytes that are there. -/
def frameBodyWith (taken : LateGuard → Nat → ParseM ParseResult) (limits : ParseLimits)
    (data : Bytes) (request : HttpRequest) (cursor : Nat) (st : HeaderState) :
    ParseM ParseResult := do
  if cursor > data.length then taken .cursorPastEnd 0
  else
    let next ← substr data cursor 2
    let bodyStart := if next = crlf then cursor + 2 else cursor
    let request := { request with headers := st.headers }
    let (request, consumed) ←
      if st.contentLengthValue ≠ [] then
        match stoull st.contentLengthValue with
        | none => fail .invalidContentLength
        | some expectedBodySize =>
          if expectedBodySize > limits.maxBodySize.toNat then fail .bodyTooLarge
          else if data.length - bodyStart < expectedBodySize then fail .incompleteRequest
          else do
            let body ← substr data bodyStart expectedBodySize
            pure ({ request with body := body }, bodyStart + expectedBodySize)
      else pure (request, bodyStart)
    if consumed > data.length then taken .consumedPastEnd consumed
    else if consumed = 0 ∧ ¬ request.headers.contains (ascii "Host") ∧
        request.version = .http11 then
      taken .nothingConsumed consumed
    else pure { request := some request, consumed := consumed }

/-- From the end of the header loop to the end of `parse`. -/
def frameBody (limits : ParseLimits) (data : Bytes) (request : HttpRequest) (cursor : Nat)
    (st : HeaderState) : ParseM ParseResult :=
  frameBodyWith LateGuard.exit limits data request cursor st

/-! ## parse -/

/-- The body of `HttpParser::parse`, where `taken` is what the late guards do. -/
def parseMWith (taken : LateGuard → Nat → ParseM ParseResult) (limits : ParseLimits)
    (data : Bytes) : ParseM ParseResult :=
  if data = [] then fail .incompleteRequest
  else
    match findFrom crlf data 0 with
    | none =>
      if data.length > limits.maxRequestLineSize.toNat then fail .requestLineTooLarge
      else fail .incompleteRequest
    | some requestLineEnd =>
      if requestLineEnd > limits.maxRequestLineSize.toNat then fail .requestLineTooLarge
      else do
        let requestLine ← substr data 0 requestLineEnd
        let (method, target, version) ← parseRequestLine requestLine
        let request : HttpRequest := { method := method, target := target, version := version }
        let (cursor, st) ← headerLoop limits data (requestLineEnd + 2) {}
        frameBodyWith taken limits data request cursor st

/-- The body of `HttpParser::parse`. -/
def parseM (limits : ParseLimits) (data : Bytes) : ParseM ParseResult :=
  parseMWith LateGuard.exit limits data

/-- `HttpParser::parse`, where `taken` is what the late guards do; `none` when an
exception leaves it. -/
def parseWith (taken : LateGuard → Nat → ParseM ParseResult) (limits : ParseLimits)
    (data : Bytes) : Option ParseResult :=
  match parseMWith taken limits data with
  | .ok result => some result
  | .error (.failed result) => some result
  | .error .outOfRange => none

/-- `HttpParser::parse` -/
def parse (limits : ParseLimits) (data : Bytes) : Option ParseResult :=
  parseWith LateGuard.exit limits data

/-- How `parse` reports what its body returns. -/
theorem parse_eq (limits : ParseLimits) (data : Bytes) :
    parse limits data =
      match parseM limits data with
      | .ok result => some result
      | .error (.failed result) => some result
      | .error .outOfRange => none := rfl

end HttpsServer
