import HttpsServer.Parser.Verdict
import HttpsServer.Framer

/-!
# HttpsServer.Connection

The reading side of `Connection` (`connection.cpp`): `read_request` parses
what is buffered, hands out a request, throws on a parse error, and reads
more from the transport only when the parser asks for it.

What the transport delivers is the list of its successful reads in order;
after the last of them `read` returns `0` or `-1`.
-/

namespace HttpsServer

/-! ## read_request -/

/-- How a call of `read_request` ends. -/
inductive ReadOutcome where
  /-- it returns; the buffer and the reads that are left -/
  | returned (request : Option HttpRequest) (readBuffer : Bytes) (reads : List Bytes)
  /-- an exception leaves it -/
  | threw

def readRequest (limits : ParseLimits) (readBuffer : Bytes) (reads : List Bytes) : ReadOutcome :=
  match parse limits readBuffer with
  | none => .threw
  | some result =>
    if result.success then .returned result.request (readBuffer.drop result.consumed) reads
    else if result.error ≠ .incompleteRequest then .threw
    else
      match reads with
      | [] => .returned none readBuffer []
      | buffer :: reads =>
        if buffer = [] then .returned none readBuffer reads
        else readRequest limits (readBuffer ++ buffer) reads

/-! ## The parser as a framer -/

/-- A request takes at least its request line's CRLF. -/
theorem consumed_of_accepted {limits : ParseLimits} {data : Bytes} {r : ParseResult}
    (h : parse limits data = some r) (hs : r.success = true) :
    0 < r.consumed ∧ r.consumed ≤ data.length := by
  obtain ⟨v, hview, -, hready, rfl⟩ := parse_accepts_iff.mp ⟨h, hs⟩
  have hdata := (headView_eq_some.mp hview).1
  have hbytes := v.length_bytes
  have hcontent := v.length_content
  have hsize := hready.bodySize_le.1
  simp only [HeadView.accepted]
  rw [hdata, List.length_append]
  omega

/-- What `read_request` makes of the buffered bytes. -/
def requestVerdict (limits : ParseLimits) (readBuffer : Bytes) : Verdict HttpRequest :=
  match parse limits readBuffer with
  | none => .failed
  | some result =>
    match result.request with
    | some request => if result.error = .none then .done request result.consumed else .failed
    | none => if result.error = .incompleteRequest then .more else .failed

def requestFramer (limits : ParseLimits) : Framer UInt8 HttpRequest where
  verdict := requestVerdict limits
  progress := by
    intro buf request n h
    unfold requestVerdict at h
    cases hp : parse limits buf with
    | none => simp [hp] at h
    | some r =>
        obtain ⟨req, err, c⟩ := r
        cases req with
        | none => simp only [hp] at h; split at h <;> contradiction
        | some req =>
            simp only [hp] at h
            split at h
            · next he =>
              cases h
              exact consumed_of_accepted hp (by simp [ParseResult.success, he])
            · contradiction

/-- The three kinds of verdict, in terms of the lines of the buffer. -/
theorem requestVerdict_cases (limits : ParseLimits) (readBuffer : Bytes) :
    (∃ v, headView readBuffer = some v ∧ v.Valid limits ∧ v.BodyReady limits ∧
        requestVerdict limits readBuffer = .done v.request v.accepted.consumed) ∨
      (NeedsMore limits readBuffer ∧ requestVerdict limits readBuffer = .more) ∨
      (¬ NeedsMore limits readBuffer ∧
        (∀ v, headView readBuffer = some v → v.Valid limits → ¬ v.BodyReady limits) ∧
        requestVerdict limits readBuffer = .failed) := by
  rcases parse_cases limits readBuffer with ⟨v, h1, h2, h3, h⟩ | ⟨hneed, h⟩ | ⟨hneed, hno, e, -, he, h⟩
  · exact .inl ⟨v, h1, h2, h3, by simp [requestVerdict, h, HeadView.accepted]⟩
  · exact .inr (.inl ⟨hneed, by simp [requestVerdict, h]⟩)
  · exact .inr (.inr ⟨hneed, hno, by simp [requestVerdict, h, he]⟩)

/-- One call of `read_request`, by the verdict on the buffer. -/
theorem readRequest_eq (limits : ParseLimits) (readBuffer : Bytes) (reads : List Bytes) :
    readRequest limits readBuffer reads =
      match requestVerdict limits readBuffer with
      | .done request n => .returned (some request) (readBuffer.drop n) reads
      | .failed => .threw
      | .more =>
        match reads with
        | [] => .returned none readBuffer []
        | buffer :: reads =>
          if buffer = [] then .returned none readBuffer reads
          else readRequest limits (readBuffer ++ buffer) reads := by
  rw [readRequest.eq_def]
  rcases parse_cases limits readBuffer with ⟨v, -, -, -, h⟩ | ⟨-, h⟩ | ⟨-, -, e, -, he, h⟩
  · simp [requestVerdict, h, HeadView.accepted, ParseResult.success]
  · simp [requestVerdict, h, ParseResult.success]
  · simp [requestVerdict, h, he, ParseResult.success]

/-! ## All requests of a connection -/

/-- Every request that is handed out leaves fewer bytes to come. -/
theorem readRequest_lt {limits : ParseLimits} {readBuffer : Bytes} {reads : List Bytes}
    {request : HttpRequest} {readBuffer' : Bytes} {reads' : List Bytes}
    (h : readRequest limits readBuffer reads = .returned (some request) readBuffer' reads') :
    readBuffer'.length + reads'.flatten.length < readBuffer.length + reads.flatten.length := by
  induction reads generalizing readBuffer with
  | nil =>
      rw [readRequest_eq] at h
      cases hv : requestVerdict limits readBuffer with
      | done r n =>
          rw [hv] at h
          cases h
          have := (requestFramer limits).progress hv
          simp
          omega
      | more => simp [hv] at h
      | failed => simp [hv] at h
  | cons buffer reads ih =>
      rw [readRequest_eq] at h
      cases hv : requestVerdict limits readBuffer with
      | done r n =>
          rw [hv] at h
          cases h
          have := (requestFramer limits).progress hv
          simp
          omega
      | more =>
          simp only [hv] at h
          split at h
          · cases h
          · have := ih h
            simp only [List.length_append, List.flatten_cons] at this ⊢
            omega
      | failed => simp [hv] at h

/-- `read_request` called again and again until it returns `nullopt` or
throws: the requests it hands out, and how it ends. -/
def readAll (limits : ParseLimits) (readBuffer : Bytes) (reads : List Bytes) :
    List HttpRequest × Ending :=
  match _h : readRequest limits readBuffer reads with
  | .returned (some request) readBuffer reads =>
    (request :: (readAll limits readBuffer reads).1, (readAll limits readBuffer reads).2)
  | .returned none _ _ => ([], .endOfStream)
  | .threw => ([], .failed)
termination_by readBuffer.length + reads.flatten.length
decreasing_by all_goals exact readRequest_lt _h

/-- What one call of `read_request` adds to the session of the framer. -/
theorem run_of_readRequest (limits : ParseLimits) (readBuffer : Bytes) {reads : List Bytes}
    (hne : ∀ c ∈ reads, c ≠ []) :
    match readRequest limits readBuffer reads with
    | .returned (some request) readBuffer' reads' =>
      (∀ c ∈ reads', c ≠ []) ∧ ∀ fs e, (requestFramer limits).Run readBuffer' reads' fs e →
        (requestFramer limits).Run readBuffer reads (request :: fs) e
    | .returned none _ _ => (requestFramer limits).Run readBuffer reads [] .endOfStream
    | .threw => (requestFramer limits).Run readBuffer reads [] .failed := by
  induction reads generalizing readBuffer with
  | nil =>
      rw [readRequest_eq]
      cases hv : requestVerdict limits readBuffer with
      | done r n => exact ⟨hne, fun fs e h => .frame hv h⟩
      | more => exact .eos hv
      | failed => exact .failed hv
  | cons buffer reads ih =>
      rw [readRequest_eq]
      cases hv : requestVerdict limits readBuffer with
      | done r n => exact ⟨hne, fun fs e h => .frame hv h⟩
      | failed => exact .failed hv
      | more =>
          have hih := ih (readBuffer ++ buffer) fun c hc => hne c (by simp [hc])
          simp only
          rw [if_neg (hne buffer (by simp))]
          cases hr : readRequest limits (readBuffer ++ buffer) reads with
          | returned request readBuffer' reads' =>
              rw [hr] at hih
              cases request with
              | none => exact .read hv hih
              | some request => exact ⟨hih.1, fun fs e h => .read hv (hih.2 fs e h)⟩
          | threw =>
              rw [hr] at hih
              exact .read hv hih

/-- **The calls of `read_request` are the session of the framer** on reads
that deliver at least one byte each. -/
theorem run_readAll (limits : ParseLimits) (readBuffer : Bytes) (reads : List Bytes)
    (hne : ∀ c ∈ reads, c ≠ []) :
    (requestFramer limits).Run readBuffer reads (readAll limits readBuffer reads).1
      (readAll limits readBuffer reads).2 := by
  fun_induction readAll limits readBuffer reads with
  | case1 readBuffer reads request readBuffer' reads' h ih =>
      have hstep := run_of_readRequest limits readBuffer hne
      rw [h] at hstep
      exact hstep.2 _ _ (ih hstep.1)
  | case2 readBuffer reads _ _ h =>
      have hstep := run_of_readRequest limits readBuffer hne
      rw [h] at hstep
      exact hstep
  | case3 readBuffer reads h =>
      have hstep := run_of_readRequest limits readBuffer hne
      rw [h] at hstep
      exact hstep

end HttpsServer
