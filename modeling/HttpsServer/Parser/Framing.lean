import HttpsServer.Parser.Message

/-!
# HttpsServer.Parser.Framing

Where a request ends: the empty line that closes a head, the body that its
`Content-Length` announces, and heads that announce it in more than one way.

The parser looks at none of the following, so each is a condition on the
input and not a property of every accepted request:

* whether the head was closed by its empty line before it is accepted;
* whether a CRLF behind the empty line belongs to the body;
* whether the `Content-Length` value is a plain number;
* whether another line of the head announces another length.
-/

namespace HttpsServer

/-! ## The end of the head -/

/-- The first `consumed` bytes of `data` hold a request line, header lines and
the empty line that ends them. -/
def HeadFinished (data : Bytes) (consumed : Nat) : Prop :=
  ∃ (requestLine : Bytes) (fields : List Bytes) (after : Bytes),
    data = requestLine ++ crlf ++ joinLines CR LF fields ++ crlf ++ after ∧
      ¬ crlf <:+: requestLine ∧ (∀ f ∈ fields, IsLine CR LF f) ∧
      (requestLine ++ crlf ++ joinLines CR LF fields ++ crlf).length ≤ consumed

/-- Every way `parse` accepts `data` leaves a finished head behind. -/
def AcceptsFinishedHead (limits : ParseLimits) (data : Bytes) : Prop :=
  ∀ r, parse limits data = some r → r.success = true → HeadFinished data r.consumed

/-- A head without its empty line that is otherwise in order: valid lines, and
a `Content-Length` that the bytes of the unfinished last line already cover. -/
def UnfinishedHeadReady (limits : ParseLimits) (data : Bytes) : Prop :=
  ∃ v p, headView data = some v ∧ v.ending = .unclosed p ∧ v.Valid limits ∧ v.BodyReady limits

/-- A finished head holds two line ends in a row. -/
theorem HeadFinished.crlf_crlf {data : Bytes} {consumed : Nat} (h : HeadFinished data consumed) :
    crlf ++ crlf <:+: data := by
  obtain ⟨requestLine, fields, after, rfl, -, -, -⟩ := h
  rcases List.eq_nil_or_concat fields with rfl | ⟨fields, f, rfl⟩
  · exact ⟨requestLine, after, by simp⟩
  · refine ⟨requestLine ++ crlf ++ joinLines CR LF fields ++ f, after, ?_⟩
    simp [joinLines_append]

/-- A request is accepted on a finished head only, unless its unfinished head
is already in order. -/
theorem acceptsFinishedHead_iff (limits : ParseLimits) (data : Bytes) :
    AcceptsFinishedHead limits data ↔ ¬ UnfinishedHeadReady limits data := by
  constructor
  · rintro hfin ⟨v, p, hview, hp, hv, hready⟩
    obtain ⟨hparse, hs⟩ := parse_accepts_iff.mpr ⟨v, hview, hv, hready, rfl⟩
    obtain ⟨requestLine, fields, after, hdata, hline, hfields, -⟩ := hfin _ hparse hs
    have hclosed : headView data = some ⟨requestLine, fields, .closed after⟩ :=
      headView_eq_some.mpr ⟨by rw [hdata]; rfl, hline, hfields, nofun⟩
    rw [hview, Option.some.injEq] at hclosed
    rw [hclosed] at hp
    contradiction
  · intro hnot r hr hs
    obtain ⟨v, hview, hv, hready, rfl⟩ := parse_accepts_iff.mp ⟨hr, hs⟩
    obtain ⟨hdata, hline, hfields, -⟩ := headView_eq_some.mp hview
    cases he : v.ending with
    | unclosed p => exact absurd ⟨v, p, hview, he, hv, hready⟩ hnot
    | closed after =>
        have hbytes : v.bytes = v.requestLine ++ crlf ++ joinLines CR LF v.fields ++ crlf := by
          simp [HeadView.bytes, he]
        refine ⟨v.requestLine, v.fields, after, ?_, hline, hfields, ?_⟩
        · rw [← hbytes]
          simpa [HeadView.rest, he] using hdata
        · rw [← hbytes]
          simp only [HeadView.accepted]
          omega

/-- The head of the repository's own test for an incomplete request, which
`parse` accepts. -/
theorem not_acceptsFinishedHead_host :
    ¬ AcceptsFinishedHead {} (ascii "GET / HTTP/1.1\r\nHost: localhost\r\n") := by
  intro h
  have hs : (parse {} (ascii "GET / HTTP/1.1\r\nHost: localhost\r\n")).map (·.success) =
      some true := by decide +kernel
  obtain ⟨r, hr, hsr⟩ := Option.map_eq_some_iff.mp hs
  exact absurd (h r hr hsr).crlf_crlf (by decide +kernel)

/-! ## The body -/

/-- A request with a body as a client writes it: one `Content-Length` line
among the header lines, which gives the size of the body, and everything
within the limits. -/
structure Message (limits : ParseLimits) where
  line : RequestLine
  before : List HeaderLine
  after : List HeaderLine
  body : Bytes
  others : ∀ h ∈ before ++ after, ¬ h.IsCalled (ascii "content-length")
  line_le : line.bytes.length ≤ limits.maxRequestLineSize.toNat
  fields_le : (joinLines CR LF ((before ++ contentLengthLine body.length :: after).map
    HeaderLine.bytes)).length ≤ limits.maxHeaderSize.toNat
  body_le : body.length ≤ limits.maxBodySize.toNat

namespace Message

variable {limits : ParseLimits}

/-- All header lines of a message. -/
def lines (m : Message limits) : List HeaderLine :=
  m.before ++ contentLengthLine m.body.length :: m.after

/-- Everything in front of the body. -/
def head (m : Message limits) : Bytes := writeHead m.line m.lines

/-- `parse` takes the body as it was sent and leaves what follows it. -/
def FramedExactly (m : Message limits) (rest : Bytes) : Prop :=
  ∃ request, parse limits (m.head ++ m.body ++ rest) =
      some { request := some request, consumed := m.head.length + m.body.length } ∧
    request.body = m.body

/-- The one `Content-Length` value is the size of the body. -/
theorem lengthValue_writtenView (m : Message limits) (rest : Bytes) :
    (writtenView m.line m.lines rest).lengthValue = toDecimal m.body.length := by
  have hnone : ∀ hs : List HeaderLine, (∀ h ∈ hs, h ∈ m.before ++ m.after) →
      (hs.filter fun h => h.IsCalled (ascii "content-length")) = [] := by
    intro hs hmem
    rw [List.filter_eq_nil_iff]
    intro h hh
    simpa using m.others h (hmem h hh)
  have hone : valuesOf (ascii "content-length") (m.lines.map HeaderLine.bytes) =
      [toDecimal m.body.length] := by
    rw [valuesOf_map_bytes, lines, List.filter_append, List.filter_cons,
      hnone m.before (fun h hh => List.mem_append_left _ hh),
      hnone m.after (fun h hh => List.mem_append_right _ hh),
      if_pos (by simpa using isCalled_contentLengthLine m.body.length)]
    simp [trimBlanks_contentLengthLine]
  simp [HeadView.lengthValue, writtenView, hone]

theorem stoull_lengthValue (m : Message limits) (rest : Bytes) :
    stoull (writtenView m.line m.lines rest).lengthValue = some m.body.length := by
  rw [m.lengthValue_writtenView]
  have := m.body_le
  have := limits.maxBodySize.toNat_lt
  exact stoull_toDecimal (by omega)

theorem bodySize_writtenView (m : Message limits) (rest : Bytes) :
    (writtenView m.line m.lines rest).bodySize = m.body.length := by
  have hne : (writtenView m.line m.lines rest).lengthValue ≠ [] := by
    rw [m.lengthValue_writtenView]
    exact (isDecimal_toDecimal _).1
  rw [HeadView.bodySize, if_neg hne, m.stoull_lengthValue, Option.getD_some]

/-- The body is taken exactly when no CRLF stands right behind the empty line:
`parse` would step over it as if it still belonged to the head. -/
theorem framedExactly_iff (m : Message limits) (rest : Bytes) :
    m.FramedExactly rest ↔ ¬ crlf <+: m.body ++ rest := by
  have hview := headView_writeHead m.line m.lines (m.body ++ rest)
  have hvalid := valid_writtenView m.line_le m.fields_le (m.body ++ rest)
  constructor
  · rintro ⟨request, hparse, -⟩ hcrlf
    -- an accepted request has consumed the extra CRLF as well
    rw [List.append_assoc] at hparse
    obtain ⟨v, hv, -, -, hacc⟩ := parse_accepts_iff.mp ⟨hparse, rfl⟩
    rw [head, hview, Option.some.injEq] at hv
    subst hv
    have hskip : extraCrlf (m.body ++ rest) = 2 := if_pos hcrlf
    have hlen := congrArg ParseResult.consumed hacc
    simp only [HeadView.accepted, m.bodySize_writtenView, bytes_writtenView, rest_writtenView,
      hskip, head] at hlen
    omega
  · intro hcrlf
    have hskip : extraCrlf (m.body ++ rest) = 0 := if_neg hcrlf
    have hcontent : (writtenView m.line m.lines (m.body ++ rest)).content = m.body ++ rest := by
      simp [HeadView.content, hskip]
    have hready : (writtenView m.line m.lines (m.body ++ rest)).BodyReady limits :=
      .inr ⟨_, m.stoull_lengthValue _, m.body_le, by rw [hcontent]; simp⟩
    obtain ⟨hparse, -⟩ := parse_accepts_iff.mpr ⟨_, hview, hvalid, hready, rfl⟩
    refine ⟨(writtenView m.line m.lines (m.body ++ rest)).request, ?_, ?_⟩
    · rw [List.append_assoc, head, hparse]
      simp [HeadView.accepted, m.bodySize_writtenView, hskip]
    · simp [HeadView.request, m.bodySize_writtenView, hcontent]

/-- A request whose body is a CRLF. -/
def crlfBody : Message {} where
  line := ⟨ascii "POST", ascii "/", .http11, by decide, by decide, by decide, by decide⟩
  before := []
  after := []
  body := crlf
  others := by simp
  line_le := by decide +kernel
  fields_le := by decide +kernel
  body_le := by decide +kernel

/-- On a body that is a CRLF `parse` waits for two bytes more. -/
theorem not_framedExactly_crlfBody : ¬ crlfBody.FramedExactly [] := by
  rintro ⟨request, hparse, -⟩
  have herr : (parse {} (crlfBody.head ++ crlfBody.body ++ [])).map (·.error) =
      some .incompleteRequest := by decide +kernel
  rw [hparse] at herr
  simp at herr

end Message

/-! ## The value of Content-Length -/

/-- Every `Content-Length` line of an accepted head is a plain number, and
that number is the size of the body. -/
def StrictContentLength (limits : ParseLimits) (data : Bytes) : Prop :=
  ∀ r request, parse limits data = some r → r.success = true → r.request = some request →
    ∀ v, headView data = some v → ∀ w ∈ valuesOf (ascii "content-length") v.fields,
      IsDecimal w ∧ request.body.length = decimalValue w

/-- All `Content-Length` values are plain numbers, and all the same one. -/
def PlainLengths (fields : List Bytes) : Prop :=
  ∀ w ∈ valuesOf (ascii "content-length") fields,
    IsDecimal w ∧ ∀ w' ∈ valuesOf (ascii "content-length") fields, decimalValue w' = decimalValue w

/-- A head in order whose last `Content-Length` value is empty or is read by
`std::stoull` as a size that has arrived, while not all values are one plain
number. -/
def LaxLengthReady (limits : ParseLimits) (data : Bytes) : Prop :=
  ∃ v, headView data = some v ∧ v.Valid limits ∧ v.BodyReady limits ∧ ¬ PlainLengths v.fields

/-- On plain values the body of a ready head has the size they denote. -/
theorem bodySize_of_plainLengths {limits : ParseLimits} {v : HeadView}
    (hready : v.BodyReady limits) (hplain : PlainLengths v.fields) {w : Bytes}
    (hw : w ∈ valuesOf (ascii "content-length") v.fields) : v.bodySize = decimalValue w := by
  have hlast : v.lengthValue ∈ valuesOf (ascii "content-length") v.fields := by
    unfold HeadView.lengthValue
    rw [List.getLastD_eq_getLast?, List.getLast?_eq_some_getLast (List.ne_nil_of_mem hw)]
    exact List.getLast_mem _
  obtain ⟨hdec, hsame⟩ := hplain _ hlast
  obtain ⟨n, hn, -, -⟩ := hready.resolve_left hdec.1
  have hval := stoull_of_isDecimal hdec
  rw [hn] at hval
  split at hval
  · rw [HeadView.bodySize, if_neg hdec.1, hn, hsame w hw]
    simpa using hval
  · contradiction

/-- `Content-Length` is read strictly, except on heads in order that carry a
value which only `std::stoull` takes for a number. -/
theorem strictContentLength_iff (limits : ParseLimits) (data : Bytes) :
    StrictContentLength limits data ↔ ¬ LaxLengthReady limits data := by
  constructor
  · rintro hstrict ⟨v, hview, hv, hready, hlax⟩
    obtain ⟨hparse, hs⟩ := parse_accepts_iff.mpr ⟨v, hview, hv, hready, rfl⟩
    have hall := hstrict _ _ hparse hs rfl v hview
    refine hlax fun w hw => ⟨(hall w hw).1, fun w' hw' => ?_⟩
    rw [← (hall w hw).2, ← (hall w' hw').2]
  · intro hnot r request hr hs hreq v hview w hw
    obtain ⟨v', hview', hv, hready, rfl⟩ := parse_accepts_iff.mp ⟨hr, hs⟩
    rw [hview, Option.some.injEq] at hview'
    subst hview'
    have hplain : PlainLengths v.fields := by
      by_contra hlax
      exact hnot ⟨v, hview, hv, hready, hlax⟩
    cases hreq
    refine ⟨(hplain w hw).1, ?_⟩
    rw [← bodySize_of_plainLengths hready hplain hw, HeadView.request, List.length_take]
    have := hready.bodySize_le
    omega

/-- A sign in front of the number is accepted. -/
theorem not_strictContentLength_sign :
    ¬ StrictContentLength {} (ascii "POST / HTTP/1.1\r\nContent-Length: +5\r\n\r\nhello") := by
  intro h
  have hs : (parse {} (ascii "POST / HTTP/1.1\r\nContent-Length: +5\r\n\r\nhello")).map
      (fun r => (r.success, r.request.isSome)) = some (true, true) := by decide +kernel
  obtain ⟨r, hr, hsr⟩ := Option.map_eq_some_iff.mp hs
  obtain ⟨hsucc, hsome⟩ := Prod.mk.inj hsr
  obtain ⟨request, hreq⟩ := Option.isSome_iff_exists.mp hsome
  have hv : (headView (ascii "POST / HTTP/1.1\r\nContent-Length: +5\r\n\r\nhello")).map
      (fun v => valuesOf (ascii "content-length") v.fields) = some [ascii "+5"] := by decide +kernel
  obtain ⟨v, hview, hvals⟩ := Option.map_eq_some_iff.mp hv
  have := (h r request hr hsucc hreq v hview (ascii "+5") (by rw [hvals]; simp)).1
  exact absurd this (by decide)

/-! ## More than one length -/

/-- The header lines announce one length at most, and no transfer coding. -/
def UnambiguousFields (fields : List Bytes) : Prop :=
  (∀ w ∈ valuesOf (ascii "content-length") fields,
    ∀ w' ∈ valuesOf (ascii "content-length") fields, w = w') ∧
  valuesOf (ascii "transfer-encoding") fields = []

/-- A reader that takes the first length and one that takes the last agree. -/
theorem UnambiguousFields.first_eq_last {fields : List Bytes} (h : UnambiguousFields fields) :
    (valuesOf (ascii "content-length") fields).head? =
      (valuesOf (ascii "content-length") fields).getLast? := by
  cases hvals : valuesOf (ascii "content-length") fields with
  | nil => rfl
  | cons w ws =>
      have hmem := List.getLast_mem (List.cons_ne_nil w ws)
      have hsame := h.1 w (by simp [hvals]) _ (by rw [hvals]; exact hmem)
      rw [List.getLast?_eq_some_getLast (List.cons_ne_nil w ws), ← hsame]
      rfl

/-- Every head that `parse` accepts frames its body in one way only, and so
the first and the last length of it are the same. -/
def AcceptsUnambiguous (limits : ParseLimits) (data : Bytes) : Prop :=
  ∀ r, parse limits data = some r → r.success = true →
    ∀ v, headView data = some v → UnambiguousFields v.fields ∧
      (valuesOf (ascii "content-length") v.fields).head? =
        (valuesOf (ascii "content-length") v.fields).getLast?

/-- A head in order, its body arrived, with two different `Content-Length`
values or with a `Transfer-Encoding` line. -/
def AmbiguousReady (limits : ParseLimits) (data : Bytes) : Prop :=
  ∃ v, headView data = some v ∧ v.Valid limits ∧ v.BodyReady limits ∧ ¬ UnambiguousFields v.fields

/-- Ambiguous framing is rejected only where something else in the head is
rejected. -/
theorem acceptsUnambiguous_iff (limits : ParseLimits) (data : Bytes) :
    AcceptsUnambiguous limits data ↔ ¬ AmbiguousReady limits data := by
  constructor
  · rintro hacc ⟨v, hview, hv, hready, hamb⟩
    obtain ⟨hparse, hs⟩ := parse_accepts_iff.mpr ⟨v, hview, hv, hready, rfl⟩
    exact hamb (hacc _ hparse hs v hview).1
  · intro hnot r hr hs v hview
    obtain ⟨v', hview', hv, hready, rfl⟩ := parse_accepts_iff.mp ⟨hr, hs⟩
    rw [hview, Option.some.injEq] at hview'
    subst hview'
    have hfields : UnambiguousFields v.fields := by
      by_contra hamb
      exact hnot ⟨v, hview, hv, hready, hamb⟩
    exact ⟨hfields, hfields.first_eq_last⟩

/-- Two lengths are accepted, and the last one wins. -/
theorem not_acceptsUnambiguous_two_lengths :
    ¬ AcceptsUnambiguous {}
      (ascii "POST / HTTP/1.1\r\nContent-Length: 5\r\nContent-Length: 0\r\n\r\nhello") := by
  intro h
  have hs : (parse {} (ascii
      "POST / HTTP/1.1\r\nContent-Length: 5\r\nContent-Length: 0\r\n\r\nhello")).map (·.success) =
      some true := by decide +kernel
  obtain ⟨r, hr, hsr⟩ := Option.map_eq_some_iff.mp hs
  have hv : (headView (ascii
      "POST / HTTP/1.1\r\nContent-Length: 5\r\nContent-Length: 0\r\n\r\nhello")).map
      (fun v => valuesOf (ascii "content-length") v.fields) = some [ascii "5", ascii "0"] := by
    decide +kernel
  obtain ⟨v, hview, hvals⟩ := Option.map_eq_some_iff.mp hv
  have := (h r hr hsr v hview).1.1 (ascii "5") (by simp [hvals]) (ascii "0") (by simp [hvals])
  exact absurd this (by decide)

end HttpsServer
