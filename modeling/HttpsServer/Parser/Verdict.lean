import HttpsServer.Parser.Lines

/-!
# HttpsServer.Parser.Verdict

The outcome of `parse` in terms of the lines of its input.

A head is `Valid` when its request line and all its header lines are in order
and within the limits.  On a valid head the outcome depends only on the last
`Content-Length` value and on the bytes behind the head: the request is
accepted (`BodyReady`), more bytes are needed (`BodyPending`), or the value
is refused.  `parse_cases` lists every outcome of the parser in these terms,
and `parse_accepts_iff` is the part of it that every property of accepted
requests rests on.
-/

namespace HttpsServer

namespace HeadView

/-- The last `Content-Length` value; empty when there is none. -/
def lengthValue (v : HeadView) : Bytes := (valuesOf (ascii "content-length") v.fields).getLastD []

/-- The number of body bytes that the last `Content-Length` value stands for. -/
def bodySize (v : HeadView) : Nat :=
  if v.lengthValue = [] then 0 else (stoull v.lengthValue).getD 0

/-- Method, target and version of the request line. -/
def start (v : HeadView) : HttpMethod × Bytes × HttpVersion :=
  (parseRequestLine v.requestLine).toOption.getD (.unknown, [], .unknown)

/-- The request read from a head and its body. -/
def request (v : HeadView) : HttpRequest where
  method := v.start.1
  target := v.start.2.1
  version := v.start.2.2
  headers := storedHeaders {} v.fields
  body := v.content.take v.bodySize

/-- The result of accepting that request. -/
def accepted (v : HeadView) : ParseResult where
  request := some v.request
  consumed := v.bytes.length + extraCrlf v.rest + v.bodySize

/-- Request line and header lines are in order and within the limits. -/
structure Valid (limits : ParseLimits) (v : HeadView) : Prop where
  requestLine_le : v.requestLine.length ≤ limits.maxRequestLineSize.toNat
  requestLine_ok : (parseRequestLine v.requestLine).toOption.isSome
  fields_ok : ∀ f ∈ v.fields, (field? f).isSome
  fields_le : (joinLines CR LF v.fields).length ≤ limits.maxHeaderSize.toNat

theorem Valid.parseRequestLine_eq {limits : ParseLimits} {v : HeadView} (h : v.Valid limits) :
    parseRequestLine v.requestLine = .ok v.start := by
  have hok := h.requestLine_ok
  unfold start
  cases hx : parseRequestLine v.requestLine with
  | ok x => rfl
  | error e => simp [hx, Except.toOption] at hok

/-- The body that the head announces is allowed and has arrived. -/
def BodyReady (limits : ParseLimits) (v : HeadView) : Prop :=
  v.lengthValue = [] ∨ ∃ n, stoull v.lengthValue = some n ∧
    n ≤ limits.maxBodySize.toNat ∧ n ≤ v.content.length

/-- The body that the head announces is allowed but has not arrived. -/
def BodyPending (limits : ParseLimits) (v : HeadView) : Prop :=
  v.lengthValue ≠ [] ∧ ∃ n, stoull v.lengthValue = some n ∧
    n ≤ limits.maxBodySize.toNat ∧ v.content.length < n

theorem BodyPending.not_ready {limits : ParseLimits} {v : HeadView} (h : v.BodyPending limits) :
    ¬ v.BodyReady limits := by
  obtain ⟨hne, n, hn, -, hlt⟩ := h
  rintro (he | ⟨m, hm, -, hle⟩)
  · exact hne he
  · rw [hn] at hm
    cases hm
    omega

theorem BodyReady.bodySize_le {limits : ParseLimits} {v : HeadView} (h : v.BodyReady limits) :
    v.bodySize ≤ v.content.length ∧ v.bodySize ≤ limits.maxBodySize.toNat := by
  unfold bodySize
  split
  · omega
  · next hne =>
    obtain ⟨n, hn, hmax, hle⟩ := h.resolve_left hne
    rw [hn, Option.getD_some]
    exact ⟨hle, hmax⟩

theorem BodyReady.length_body {limits : ParseLimits} {v : HeadView} (h : v.BodyReady limits) :
    v.request.body.length = v.bodySize := by
  rw [request, List.length_take, min_eq_left h.bodySize_le.1]

theorem length_content (v : HeadView) : extraCrlf v.rest + v.content.length = v.rest.length := by
  have := extraCrlf_le_length v.rest
  rw [content, List.length_drop]
  omega

end HeadView

/-! ## The body on lines -/

/-- `frameBody` behind a head, as a function of the bytes that follow it. -/
theorem frameBody_append (limits : ParseLimits) {pre : Bytes} (hpre : pre ≠ []) (rest : Bytes)
    (request : HttpRequest) (st : HeaderState) :
    frameBody limits (pre ++ rest) request pre.length st =
      if st.contentLengthValue = [] then
        .ok { request := some { request with headers := st.headers }
              consumed := pre.length + extraCrlf rest }
      else
        match stoull st.contentLengthValue with
        | none => fail .invalidContentLength
        | some n =>
          if n > limits.maxBodySize.toNat then fail .bodyTooLarge
          else if (rest.drop (extraCrlf rest)).length < n then fail .incompleteRequest
          else .ok {
            request := some { request with
              headers := st.headers
              body := (rest.drop (extraCrlf rest)).take n }
            consumed := pre.length + extraCrlf rest + n } := by
  have hpos : 0 < pre.length := List.length_pos_iff.mpr hpre
  have hskip := extraCrlf_le_length rest
  have hstart : (if rest.take 2 = crlf then pre.length + 2 else pre.length) =
      pre.length + extraCrlf rest := by
    unfold extraCrlf
    simp only [take_two_eq_crlf_iff]
    split <;> rfl
  have hnext : substr (pre ++ rest) pre.length 2 = .ok (rest.take 2) := by
    rw [substr, substr?_of_le (by simp), List.drop_left]
    rfl
  have hbody : ∀ n, substr (pre ++ rest) (pre.length + extraCrlf rest) n =
      .ok ((rest.drop (extraCrlf rest)).take n) := by
    intro n
    rw [substr, substr?_of_le (by simp; omega), List.drop_length_add_append]
    rfl
  simp only [frameBody, frameBodyWith, hnext, hstart, hbody, bind, Except.bind, pure, Except.pure]
  rw [if_neg (by simp)]
  by_cases hclv : st.contentLengthValue = []
  · rw [if_neg (by simp [hclv]), if_pos hclv]
    rw [if_neg (by simp; omega), if_neg (fun h => by omega)]
  · rw [if_pos hclv, if_neg hclv]
    cases hst : stoull st.contentLengthValue with
    | none => rfl
    | some n =>
        simp only
        by_cases hmax : n > limits.maxBodySize.toNat
        · rw [if_pos hmax, if_pos hmax]
          rfl
        · have hlen : (pre ++ rest).length - (pre.length + extraCrlf rest) =
              (rest.drop (extraCrlf rest)).length := by simp; omega
          rw [if_neg hmax, if_neg hmax, hlen]
          by_cases hlt : (rest.drop (extraCrlf rest)).length < n
          · rw [if_pos hlt, if_pos hlt]
            rfl
          · rw [if_neg hlt, if_neg hlt]
            rw [List.length_drop] at hlt
            rw [if_neg (by simp; omega), if_neg (fun h => by omega)]

/-! ## parse on the view -/

namespace HeadView

theorem bytes_ne_nil (v : HeadView) : v.bytes ≠ [] := by simp [bytes]

theorem length_bytes (v : HeadView) :
    v.bytes.length = v.requestLine.length + 2 + (joinLines CR LF v.fields).length +
      match v.ending with
      | .closed _ => 2
      | .unclosed _ => 0 := by
  unfold bytes
  cases v.ending <;> simp <;> omega

/-- An accepted request takes up at least the bytes of `GET / HTTP/1.1` and
its CRLF, and no more than there are. -/
theorem accepted_consumed {limits : ParseLimits} {data : Bytes} {v : HeadView}
    (hview : headView data = some v) (hv : v.Valid limits) (hready : v.BodyReady limits) :
    16 ≤ v.accepted.consumed ∧ v.accepted.consumed ≤ data.length := by
  have hline := le_length_of_parseRequestLine hv.parseRequestLine_eq
  have hbytes := v.length_bytes
  have hcontent := v.length_content
  have hdata := congrArg List.length (headView_eq_some.mp hview).1
  rw [List.length_append] at hdata
  have := hready.bodySize_le.1
  simp only [accepted]
  omega

end HeadView

/-- Without a CRLF only the size of the data matters. -/
theorem parseM_of_headView_none {data : Bytes} (h : headView data = none) (limits : ParseLimits) :
    parseM limits data =
      if data.length > limits.maxRequestLineSize.toNat then fail .requestLineTooLarge
      else fail .incompleteRequest := by
  have hcut : cutPair CR LF data = none := by simpa [headView] using h
  have hfind : findFrom crlf data 0 = none := by
    simp [findFrom, findSub_pair, hcut]
  unfold parseM parseMWith
  split
  · next hnil =>
    subst hnil
    rw [if_neg (by simp)]
  · rw [hfind]

/-- With a CRLF the parser reads the lines of the view and then the body. -/
theorem parseM_of_headView_some {data : Bytes} {v : HeadView} (h : headView data = some v)
    (limits : ParseLimits) :
    parseM limits data =
      if v.requestLine.length > limits.maxRequestLineSize.toNat then fail .requestLineTooLarge
      else (parseRequestLine v.requestLine).bind fun x =>
        (v.fields.foldlM (addHeader limits) {}).bind fun st =>
          frameBody limits (v.bytes ++ v.rest)
            { method := x.1, target := x.2.1, version := x.2.2 } v.bytes.length st := by
  have hdata := (headView_eq_some.mp h).1
  obtain ⟨⟨line, after⟩, hcut, rfl⟩ := Option.map_eq_some_iff.mp h
  have hdata' : data = line ++ crlf ++ after := by
    simpa using ((cutPair_eq_some CR_ne_LF).mp hcut).1
  have hfind : findFrom crlf data 0 = some line.length := by
    simp [findFrom, findSub_pair, hcut]
  have hline : substr data 0 line.length = .ok line := by
    have := substr_append [] line (crlf ++ after)
    rwa [List.nil_append, ← List.append_assoc, ← hdata'] at this
  have hloop : ∀ st, headerLoop limits data (line.length + 2) st =
      ((cutBlock CR LF after).1.foldlM (addHeader limits) st).map fun st' =>
        (HeadView.bytes ⟨line, (cutBlock CR LF after).1, (cutBlock CR LF after).2⟩ |>.length, st') := by
    intro st
    have hl := headerLoop_append limits (line ++ crlf) after st
    rw [← hdata', show (line ++ crlf).length = line.length + 2 by simp] at hl
    rw [hl]
    congr 1
    funext st'
    have hlen := HeadView.length_bytes ⟨line, (cutBlock CR LF after).1, (cutBlock CR LF after).2⟩
    exact congrArg (fun position => (position, st')) hlen.symm
  unfold parseM parseMWith
  rw [if_neg (by simp [hdata']), hfind]
  simp only
  split
  · rfl
  · rw [hline, ← hdata]
    simp only [bind, Except.bind]
    cases parseRequestLine line with
    | error e => rfl
    | ok x =>
        obtain ⟨m, t, ver⟩ := x
        simp only [hloop]
        cases (cutBlock CR LF after).1.foldlM (addHeader limits) {} <;> rfl

/-- **On a valid head** the outcome is decided by the last `Content-Length`
value and the bytes behind the head. -/
theorem parseM_of_valid {limits : ParseLimits} {data : Bytes} {v : HeadView}
    (h : headView data = some v) (hv : v.Valid limits) :
    parseM limits data =
      if v.lengthValue = [] then .ok v.accepted
      else
        match stoull v.lengthValue with
        | none => fail .invalidContentLength
        | some n =>
          if n > limits.maxBodySize.toNat then fail .bodyTooLarge
          else if v.content.length < n then fail .incompleteRequest
          else .ok v.accepted := by
  have hfold := foldlM_addHeader {} hv.fields_ok (by simpa using hv.fields_le)
  have hle := hv.requestLine_le
  rw [parseM_of_headView_some h limits, if_neg (by omega), hv.parseRequestLine_eq]
  simp only [Except.bind, hfold, frameBody_append limits v.bytes_ne_nil]
  rw [show (valuesOf (ascii "content-length") v.fields).getLastD
    ({} : HeaderState).contentLengthValue = v.lengthValue from rfl]
  by_cases he : v.lengthValue = []
  · rw [if_pos he, if_pos he]
    simp [HeadView.accepted, HeadView.request, HeadView.bodySize, he]
  · rw [if_neg he, if_neg he]
    cases hn : stoull v.lengthValue with
    | none => rfl
    | some n =>
        simp [HeadView.accepted, HeadView.request, HeadView.bodySize, HeadView.content, he, hn]

theorem parseM_of_ready {limits : ParseLimits} {data : Bytes} {v : HeadView}
    (h : headView data = some v) (hv : v.Valid limits) (hready : v.BodyReady limits) :
    parseM limits data = .ok v.accepted := by
  rw [parseM_of_valid h hv]
  by_cases he : v.lengthValue = []
  · rw [if_pos he]
  · obtain ⟨n, hn, hmax, hcont⟩ := hready.resolve_left he
    rw [if_neg he, hn]
    simp only
    rw [if_neg (by omega), if_neg (by omega)]

theorem parseM_of_pending {limits : ParseLimits} {data : Bytes} {v : HeadView}
    (h : headView data = some v) (hv : v.Valid limits) (hpending : v.BodyPending limits) :
    parseM limits data = fail .incompleteRequest := by
  obtain ⟨he, n, hn, hmax, hcont⟩ := hpending
  rw [parseM_of_valid h hv, if_neg he, hn]
  simp only
  rw [if_neg (by omega), if_pos hcont]

/-- A length that is no number or exceeds the limit is refused. -/
theorem parseM_of_refused {limits : ParseLimits} {data : Bytes} {v : HeadView}
    (h : headView data = some v) (hv : v.Valid limits) (hready : ¬ v.BodyReady limits)
    (hpending : ¬ v.BodyPending limits) : Rejects (parseM limits data) := by
  have he : v.lengthValue ≠ [] := fun he => hready (.inl he)
  rw [parseM_of_valid h hv, if_neg he]
  cases hn : stoull v.lengthValue with
  | none => exact ⟨.invalidContentLength, by decide, by decide, rfl⟩
  | some n =>
      by_cases hmax : n > limits.maxBodySize.toNat
      · simp only
        rw [if_pos hmax]
        exact ⟨.bodyTooLarge, by decide, by decide, rfl⟩
      · -- an allowed length leaves the body either ready or pending
        exfalso
        by_cases hcont : n ≤ v.content.length
        · exact hready (.inr ⟨n, hn, by omega, hcont⟩)
        · exact hpending ⟨he, n, hn, by omega, by omega⟩

/-- **On any other head** the parser rejects, whatever follows the head. -/
theorem parseM_of_not_valid {limits : ParseLimits} {data : Bytes} {v : HeadView}
    (h : headView data = some v) (hv : ¬ v.Valid limits) : Rejects (parseM limits data) := by
  rw [parseM_of_headView_some h]
  split
  · exact ⟨.requestLineTooLarge, by decide, by decide, rfl⟩
  · next hle =>
    rcases parseRequestLine_cases v.requestLine with ⟨x, hx⟩ | hrej
    · have hbad : (∃ f ∈ v.fields, field? f = none) ∨
          limits.maxHeaderSize.toNat < (joinLines CR LF v.fields).length := by
        by_contra hgood
        rw [not_or, not_exists, Nat.not_lt] at hgood
        refine hv ⟨by omega, by simp [hx, Except.toOption], ?_, hgood.2⟩
        intro f hf
        exact Option.isSome_iff_ne_none.mpr fun hnone => hgood.1 f ⟨hf, hnone⟩
      rw [hx]
      exact (foldlM_addHeader_rejects {} (Nat.zero_le _) (by simpa using hbad)).bind _
    · exact hrej.bind _

/-! ## parse -/

/-- `parse` on an input that is rejected. -/
theorem parse_of_rejects {limits : ParseLimits} {data : Bytes} (h : Rejects (parseM limits data)) :
    ∃ e, e ≠ .none ∧ e ≠ .incompleteRequest ∧ parse limits data = some { error := e } := by
  obtain ⟨e, h1, h2, he⟩ := h
  exact ⟨e, h1, h2, by simp [parse_eq, he, fail]⟩

/-- The bytes received so far are the beginning of a request within the limits. -/
def NeedsMore (limits : ParseLimits) (data : Bytes) : Prop :=
  (headView data = none ∧ data.length ≤ limits.maxRequestLineSize.toNat) ∨
    ∃ v, headView data = some v ∧ v.Valid limits ∧ v.BodyPending limits

/-- **Every outcome of `parse`**: a request read from a valid head whose body
is ready, `IncompleteRequest`, or another parse error. -/
theorem parse_cases (limits : ParseLimits) (data : Bytes) :
    (∃ v, headView data = some v ∧ v.Valid limits ∧ v.BodyReady limits ∧
        parse limits data = some v.accepted) ∨
      (NeedsMore limits data ∧ parse limits data = some { error := .incompleteRequest }) ∨
      (¬ NeedsMore limits data ∧ (∀ v, headView data = some v → v.Valid limits → ¬ v.BodyReady limits) ∧
        ∃ e, e ≠ .none ∧ e ≠ .incompleteRequest ∧ parse limits data = some { error := e }) := by
  cases hview : headView data with
  | none =>
      have hparse := parseM_of_headView_none hview limits
      by_cases hle : data.length > limits.maxRequestLineSize.toNat
      · rw [if_pos hle] at hparse
        refine .inr (.inr ⟨?_, nofun, .requestLineTooLarge, by decide, by decide, by
          simp [parse_eq, hparse, fail]⟩)
        rintro (⟨-, h⟩ | ⟨v, hv, -⟩)
        · omega
        · rw [hview] at hv
          contradiction
      · rw [if_neg hle] at hparse
        exact .inr (.inl ⟨.inl ⟨hview, by omega⟩, by simp [parse_eq, hparse, fail]⟩)
  | some v =>
      by_cases hv : v.Valid limits
      · by_cases hr : v.BodyReady limits
        · exact .inl ⟨v, rfl, hv, hr, by simp [parse_eq, parseM_of_ready hview hv hr]⟩
        · by_cases hp : v.BodyPending limits
          · exact .inr (.inl ⟨.inr ⟨v, hview, hv, hp⟩, by
              simp [parse_eq, parseM_of_pending hview hv hp, fail]⟩)
          · refine .inr (.inr ⟨?_, ?_, parse_of_rejects (parseM_of_refused hview hv hr hp)⟩)
            · rintro (⟨h, -⟩ | ⟨w, hw, -, hwp⟩)
              · rw [hview] at h
                contradiction
              · rw [hview] at hw
                cases hw
                exact hp hwp
            · rintro w hw -
              cases hw
              exact hr
      · refine .inr (.inr ⟨?_, ?_, parse_of_rejects (parseM_of_not_valid hview hv)⟩)
        · rintro (⟨h, -⟩ | ⟨w, hw, hwv, -⟩)
          · rw [hview] at h
            contradiction
          · rw [hview] at hw
            cases hw
            exact hv hwv
        · rintro w hw hwv
          cases hw
          exact absurd hwv hv

/-- **Acceptance**: `parse` succeeds exactly on a valid head whose body is
ready, and returns what that head and body say. -/
theorem parse_accepts_iff {limits : ParseLimits} {data : Bytes} {r : ParseResult} :
    parse limits data = some r ∧ r.success = true ↔
      ∃ v, headView data = some v ∧ v.Valid limits ∧ v.BodyReady limits ∧ r = v.accepted := by
  constructor
  · rintro ⟨hr, hs⟩
    rcases parse_cases limits data with ⟨v, h1, h2, h3, h⟩ | ⟨-, h⟩ | ⟨-, -, e, h1, -, h⟩
    · rw [h, Option.some.injEq] at hr
      exact ⟨v, h1, h2, h3, hr.symm⟩
    · rw [h, Option.some.injEq] at hr
      subst hr
      simp [ParseResult.success] at hs
    · rw [h, Option.some.injEq] at hr
      subst hr
      simp [ParseResult.success] at hs
  · rintro ⟨v, hview, hv, hready, rfl⟩
    exact ⟨by simp [parse_eq, parseM_of_ready hview hv hready], rfl⟩

end HttpsServer
