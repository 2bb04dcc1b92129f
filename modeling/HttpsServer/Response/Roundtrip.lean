import HttpsServer.Response.Head

/-!
# HttpsServer.Response.Roundtrip

Reading a response back.

`readReply` is what a client does with the bytes of one response: it cuts them
at the first empty line, reads the status line, cuts every other line of the
head at its first `": "` and folds the names to lower case.  For headers that
fit a line it recovers the response, in whatever order the header map is
iterated (`readReply_serializeIn`).
-/

namespace HttpsServer

open scoped List

/-! ## The reader -/

def StatusCode.enumerators : List StatusCode :=
  [.continue, .ok, .created, .noContent, .badRequest, .unauthorized, .forbidden, .notFound,
    .methodNotAllowed, .requestTimeout, .payloadTooLarge, .uriTooLong, .internalServerError,
    .notImplemented, .httpVersionNotSupported]

/-- The status that a run of digits stands for. -/
def StatusCode.ofDigits (digits : Bytes) : Option StatusCode :=
  if IsDecimal digits then enumerators.find? fun s => s.code = decimalValue digits else none

theorem StatusCode.ofDigits_toDecimal (s : StatusCode) : ofDigits (toDecimal s.code) = some s := by
  rw [ofDigits, if_pos (isDecimal_toDecimal _), decimalValue_toDecimal]
  cases s <;> rfl

/-- A response as its reader sees it. -/
structure Reply where
  version : HttpVersion
  status : StatusCode
  reason : Bytes
  headers : List (Bytes × Bytes)
  body : Bytes
  deriving DecidableEq

/-- What stands before and what stands behind the first blank. -/
def cutBlank (s : Bytes) : Bytes × Bytes :=
  (s.takeWhile (· ≠ 32), (s.dropWhile (· ≠ 32)).drop 1)

theorem cutBlank_append {s : Bytes} (h : 32 ∉ s) (rest : Bytes) :
    cutBlank (s ++ 32 :: rest) = (s, rest) := by
  have hall : ∀ b ∈ s, decide (b ≠ 32) = true := by
    intro b hb
    exact decide_eq_true fun he => h (he ▸ hb)
  rw [cutBlank, List.takeWhile_append_of_pos hall, List.dropWhile_append_of_pos hall]
  simp

/-- Version, status and reason. -/
def readStatusLine (line : Bytes) : Option (HttpVersion × StatusCode × Bytes) :=
  let (version, rest) := cutBlank line
  let (code, reason) := cutBlank rest
  (StatusCode.ofDigits code).map fun status => (versionFromString version, status, reason)

/-- Name, in lower case, and value of a header line. -/
def readField (line : Bytes) : Option (Bytes × Bytes) :=
  (cutPair 58 32 line).map fun p => (lowercase p.1, p.2)

/-- One response, from all of its bytes. -/
def readReply (data : Bytes) : Option Reply := do
  let i ← findSub (crlf ++ crlf) data
  match splitPair CR LF (data.take i) with
  | [] => none
  | line :: lines =>
    let (version, status, reason) ← readStatusLine line
    let headers ← lines.mapM readField
    some {
      version := version
      status := status
      reason := reason
      headers := headers
      body := data.drop (i + 4) }

namespace HttpResponse

/-- What the head is to say under a name, given in lower case. -/
def told (r : HttpResponse) (name : Bytes) : Option Bytes :=
  if name = ascii "connection" then
    some (if r.keepAlive then ascii "keep-alive" else ascii "close")
  else if name = ascii "content-length" then
    some ((r.headers.get (ascii "Content-Length")).getD (toDecimal r.body.length))
  else if name = ascii "content-type" then
    some ((r.headers.get (ascii "Content-Type")).getD [])
  else r.headers.storage.lookup name

/-! ## Line by line -/

theorem readStatusLine_statusLine (r : HttpResponse) (version : HttpVersion) :
    readStatusLine (r.statusLine version) =
      some (if version = .http10 then .http10 else .http11, r.status, reasonPhrase r.status) := by
  have hversion : ∃ v : Bytes, v = ascii "HTTP/" ++ (if version = .http10 then ascii "1.0" else
      ascii "1.1") ∧ 32 ∉ v ∧
      versionFromString v = if version = .http10 then .http10 else .http11 := by
    refine ⟨_, rfl, ?_⟩
    split <;> decide
  have hcode : 32 ∉ toDecimal r.status.code := fun h => by
    have := (isDecimal_toDecimal r.status.code).2 _ h
    contradiction
  obtain ⟨v, hv, hblank, hread⟩ := hversion
  have hline : r.statusLine version =
      v ++ 32 :: (toDecimal r.status.code ++ 32 :: reasonPhrase r.status) := by
    rw [statusLine, ← hv]
    simp [ascii]
  rw [readStatusLine, hline, cutBlank_append hblank]
  simp only [cutBlank_append hcode, StatusCode.ofDigits_toDecimal, hread, Option.map_some]

theorem readField_writeField {f : Bytes × Bytes} (h : 58 ∉ f.1) :
    readField (writeField f) = some (lowercase f.1, f.2) := by
  have hname : ¬ [58, 32] <:+: f.1 := fun hin => h (hin.subset (by simp))
  have hline : writeField f = f.1 ++ 58 :: 32 :: f.2 := by simp [writeField, ascii]
  rw [readField, hline, cutPair_append_pair (by decide) hname]
  rfl

/-- The header lines, read one by one. -/
theorem mapM_readField {fs : List (Bytes × Bytes)} (h : ∀ f ∈ fs, 58 ∉ f.1) :
    (fs.map writeField).mapM readField = some (fs.map fun f => (lowercase f.1, f.2)) := by
  induction fs with
  | nil => rfl
  | cons f fs ih =>
      rw [List.map_cons, List.mapM_cons, readField_writeField (h f (by simp)),
        ih fun g hg => h g (by simp [hg])]
      rfl

/-! ## The headers read -/

/-- The names and values read: three that `serialize` writes itself, and the
stored ones under other names. -/
theorem map_lowercase_fields {r : HttpResponse} {all : List (Bytes × Bytes)}
    (hall : ∀ e ∈ all, e ∈ r.headers.all) :
    (r.fields all).map (fun f => (lowercase f.1, f.2)) =
      (ascii "content-length", r.lengthText) :: (ascii "connection", r.connectionText) ::
        (all.filter (fun e => !isReserved e.1) ++
          [(ascii "content-type", r.headers.valueOr (ascii "Content-Type"))]) := by
  have hstored : ((all.filter fun e => !isReserved e.1).map
      fun e => (titleCaseHeader e.1, e.2)).map (fun f => (lowercase f.1, f.2)) =
        all.filter fun e => !isReserved e.1 := by
    rw [List.map_map]
    refine (List.map_congr_left fun e he => ?_).trans (List.map_id _)
    have hlow := Headers.lowercase_of_mem_all (hall e (List.mem_filter.mp he).1)
    simp only [Function.comp_apply, lowercase_titleCaseHeader, hlow, id_eq]
  rw [fields, List.map_cons, List.map_cons, List.map_append, hstored]
  rfl

/-- A stored name is left out of the loop when it is one of the three. -/
theorem isReserved_eq_false {r : HttpResponse} {e : Bytes × Bytes} (he : e ∈ r.headers.all) :
    isReserved e.1 = false ↔
      e.1 ≠ ascii "content-length" ∧ e.1 ≠ ascii "content-type" ∧ e.1 ≠ ascii "connection" := by
  simp [isReserved, toLower_eq_lowercase, Headers.lowercase_of_mem_all he, and_assoc]

/-- The stored headers that the loop writes. -/
theorem mem_written {r : HttpResponse} {all : List (Bytes × Bytes)} (hall : all ~ r.headers.all)
    {name value : Bytes} :
    (name, value) ∈ all.filter (fun e => !isReserved e.1) ↔
      (name ≠ ascii "content-length" ∧ name ≠ ascii "content-type" ∧ name ≠ ascii "connection") ∧
        r.headers.storage.lookup name = some value := by
  rw [List.mem_filter, hall.mem_iff, Bool.not_eq_true', ← Headers.mem_all, and_comm]
  exact and_congr_left fun he => isReserved_eq_false he

/-- No name is read twice. -/
theorem nodup_names {r : HttpResponse} {all : List (Bytes × Bytes)} (hall : all ~ r.headers.all) :
    (((r.fields all).map fun f => (lowercase f.1, f.2)).map Prod.fst).Nodup := by
  have hnot : ∀ name, (name ∈ (all.filter fun e => !isReserved e.1).map Prod.fst) →
      name ≠ ascii "content-length" ∧ name ≠ ascii "content-type" ∧
        name ≠ ascii "connection" := by
    intro name hmem
    obtain ⟨e, he, rfl⟩ := List.mem_map.mp hmem
    exact ((mem_written hall).mp he).1
  have hstored : ((all.filter fun e => !isReserved e.1).map Prod.fst).Nodup :=
    ((hall.map Prod.fst).nodup_iff.mpr r.headers.nodup_all).sublist
      (List.Sublist.map _ List.filter_sublist)
  rw [map_lowercase_fields fun e he => hall.mem_iff.mp he]
  simp only [List.map_cons, List.map_append, List.map_nil, List.nodup_cons, List.nodup_append,
    List.mem_cons, List.mem_append, List.not_mem_nil, or_false, not_or]
  refine ⟨⟨by decide, fun h => (hnot _ h).1 rfl, by decide⟩,
    ⟨fun h => (hnot _ h).2.2 rfl, by decide⟩, hstored, ⟨not_false, List.nodup_nil⟩, ?_⟩
  rintro name hmem _ rfl rfl
  exact (hnot _ hmem).2.1 rfl

/-- What is read under a name is what was to be told under it. -/
theorem mem_fields_iff {r : HttpResponse} {all : List (Bytes × Bytes)}
    (hall : all ~ r.headers.all) {name value : Bytes} :
    (name, value) ∈ (r.fields all).map (fun f => (lowercase f.1, f.2)) ↔
      r.told name = some value := by
  rw [map_lowercase_fields fun e he => hall.mem_iff.mp he]
  simp only [List.mem_cons, List.mem_append, List.not_mem_nil, or_false, mem_written hall,
    Prod.mk.injEq]
  have hne : ascii "content-length" ≠ ascii "connection" ∧
      ascii "content-type" ≠ ascii "connection" ∧
        ascii "content-type" ≠ ascii "content-length" := by decide
  obtain ⟨hlc, htc, htl⟩ := hne
  unfold told
  split
  · next h =>
    subst h
    simpa [hlc.symm, htc.symm, connectionText] using @eq_comm _ value r.connectionText
  · next hc =>
    split
    · next h =>
      subst h
      simpa [htl.symm, hlc, lengthText_eq] using @eq_comm _ value _
    · next hl =>
      split
      · next h =>
        subst h
        simpa [htc, htl, Headers.valueOr] using @eq_comm _ value _
      · next ht => simp [hc, hl, ht]

/-! ## Serialization is invertible -/

/-- **A serialized response reads back**: split at its first empty line it gives
the body, its first line gives version, status and reason, and its other lines
give every name once, with the value the response has for it. -/
theorem readReply_serializeIn (r : HttpResponse) (h : r.HeadersOk) (all : List (Bytes × Bytes))
    (hall : all ~ r.headers.all) (version : HttpVersion) :
    ∃ reply, readReply (r.serializeIn all version) = some reply ∧
      reply.version = (if version = .http10 then .http10 else .http11) ∧
      reply.status = r.status ∧ reply.reason = reasonPhrase r.status ∧ reply.body = r.body ∧
      (reply.headers.map Prod.fst).Nodup ∧
      ∀ name value, (name, value) ∈ reply.headers ↔ r.told name = some value := by
  have hmem : ∀ e ∈ all, e ∈ r.headers.all := fun e he => hall.mem_iff.mp he
  have hunbroken := fieldLines_unbroken h hmem
  have hlines : ∀ l ∈ r.statusLine version :: r.fieldLines all, IsLine CR LF l := by
    intro l hl
    cases List.mem_cons.mp hl with
    | inl he => exact he ▸ r.isLine_statusLine version
    | inr hl =>
        refine ⟨?_, hunbroken l hl⟩
        obtain ⟨f, -, rfl⟩ := List.mem_map.mp hl
        simp [writeField, ascii]
  have hout : r.serializeIn all version =
      joinLines CR LF (r.statusLine version :: r.fieldLines all) ++ CR :: LF :: r.body := by
    rw [serializeIn_eq, joinLines_cons]
    simp
  have hsplit := findSub_double CR_ne_LF (by simp) hlines r.body
  have hhead := splitPair_take_joinLines CR_ne_LF (by simp) fun l hl => (hlines l hl).2
  have hlen : 2 ≤ (joinLines CR LF (r.statusLine version :: r.fieldLines all)).length := by
    rw [joinLines_cons]
    simp only [List.length_append, List.length_cons]
    omega
  rw [← hout] at hsplit
  generalize hi : (joinLines CR LF (r.statusLine version :: r.fieldLines all)).length - 2 = i
    at hsplit hhead
  have htake : (r.serializeIn all version).take i =
      (joinLines CR LF (r.statusLine version :: r.fieldLines all)).take i := by
    rw [hout, List.take_append_of_le_length (by omega)]
  have hdrop : (r.serializeIn all version).drop (i + 4) = r.body := by
    rw [hout, show i + 4 = (joinLines CR LF (r.statusLine version :: r.fieldLines all)).length + 2
      by omega, List.drop_length_add_append]
    rfl
  have hread : readReply (r.serializeIn all version) = some {
      version := if version = .http10 then .http10 else .http11
      status := r.status
      reason := reasonPhrase r.status
      headers := (r.fields all).map fun f => (lowercase f.1, f.2)
      body := r.body } := by
    rw [readReply, show crlf ++ crlf = [CR, LF, CR, LF] from rfl, hsplit, Option.bind_eq_bind,
      Option.bind_some, htake, hhead, hdrop]
    simp only [readStatusLine_statusLine, fieldLines,
      mapM_readField fun f hf => (fields_ok h hmem f hf).1]
    rfl
  exact ⟨_, hread, rfl, rfl, rfl, rfl, nodup_names hall, fun _ _ => mem_fields_iff hall⟩

/-- A response with a header of its own, its map iterated backwards. -/
theorem readReply_serializeIn_reverse :
    ∃ reply, readReply (((ok (ascii "hi")).setHeader (ascii "X-Id-") (ascii "a: b")).serializeIn
        ((ok (ascii "hi")).setHeader (ascii "X-Id-") (ascii "a: b")).headers.all.reverse .http10) =
          some reply ∧
      reply.body = ascii "hi" ∧ (ascii "x-id-", ascii "a: b") ∈ reply.headers := by
  obtain ⟨reply, hread, -, -, -, hbody, -, hheaders⟩ := readReply_serializeIn
    ((ok (ascii "hi")).setHeader (ascii "X-Id-") (ascii "a: b")) (by decide) _
    (List.reverse_perm _) .http10
  exact ⟨reply, hread, hbody, (hheaders _ _).mpr (by decide)⟩

end HttpResponse

end HttpsServer
