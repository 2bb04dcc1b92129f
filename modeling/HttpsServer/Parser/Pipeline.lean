import HttpsServer.Connection
import HttpsServer.Parser.Extension
import HttpsServer.Parser.Framing

/-!
# HttpsServer.Parser.Pipeline

Requests that follow each other in one stream.

A client writes whole requests, one behind the other, and the network delivers
a beginning of what it has written.  On such a beginning `parse` finds the next
request when all of it is there, and asks for more when it is not
(`requestVerdict_stream`).  There are two exceptions: a body that begins with the
CRLF that `parse` steps over, and beginnings that end inside a head and that
`parse` does not recognise as such (`Misread`).
-/

namespace HttpsServer

/-! ## Requests with and without a body -/

/-- The header lines announce the body: one Content-Length line with its size,
or no such line and no body. -/
def Announces (lines : List HeaderLine) (body : Bytes) : Prop :=
  valuesOf (ascii "content-length") (lines.map HeaderLine.bytes) = [toDecimal body.length] ∨
    valuesOf (ascii "content-length") (lines.map HeaderLine.bytes) = [] ∧ body = []

/-- A request as a client puts it into the stream. -/
structure ClientRequest where
  line : RequestLine
  lines : List HeaderLine
  body : Bytes
  announced : Announces lines body

/-- No part of the request is over its limit. -/
structure ClientRequest.Within (limits : ParseLimits) (r : ClientRequest) : Prop where
  line_le : r.line.bytes.length ≤ limits.maxRequestLineSize.toNat
  fields_le : (joinLines CR LF (r.lines.map HeaderLine.bytes)).length ≤ limits.maxHeaderSize.toNat
  body_le : r.body.length ≤ limits.maxBodySize.toNat

theorem not_crlf_of_head? {body : Bytes} (h : body.head? ≠ some CR) : ¬ crlf <+: body := by
  rintro ⟨rest, rfl⟩
  exact h rfl

/-- The beginning of a request that `parse` takes for something else: a head
without its empty line that is in order all the same, or a request line whose
CRLF is still to come and that is over the limit with the CR alone. -/
def Misread (limits : ParseLimits) (data : Bytes) : Prop :=
  UnfinishedHeadReady limits data ∨
    headView data = none ∧ limits.maxRequestLineSize.toNat < data.length

/-- A beginning with the whole head in it is not misread. -/
theorem not_misread_of_closed {limits : ParseLimits} {data after : Bytes} {v : HeadView}
    (h : headView data = some v) (hclosed : v.ending = .closed after) : ¬ Misread limits data := by
  rintro (⟨w, p, hw, hp, -⟩ | ⟨hnone, -⟩)
  · cases h.symm.trans hw
    rw [hclosed] at hp
    cases hp
  · rw [h] at hnone
    cases hnone

theorem not_misread_nil (limits : ParseLimits) : ¬ Misread limits [] := by
  rintro (⟨v, -, hv, -⟩ | ⟨-, hlt⟩)
  · cases hv
  · exact Nat.not_lt_zero _ hlt

theorem requestVerdict_of_needsMore {limits : ParseLimits} {data : Bytes}
    (h : NeedsMore limits data) : requestVerdict limits data = .more := by
  rcases requestVerdict_cases limits data with ⟨v, hview, -, hready, -⟩ | ⟨-, he⟩ | ⟨hnot, -, -⟩
  · rcases h with ⟨hnone, -⟩ | ⟨w, hw, -, hpending⟩
    · rw [hview] at hnone
      cases hnone
    · cases hview.symm.trans hw
      exact absurd hready hpending.not_ready
  · exact he
  · exact absurd h hnot

namespace ClientRequest

variable {limits : ParseLimits} (r : ClientRequest)

/-- Everything in front of the body. -/
def head : Bytes := writeHead r.line r.lines

def bytes : Bytes := r.head ++ r.body

/-- The request that the client means. -/
def request : HttpRequest where
  method := r.line.method
  target := r.line.target
  version := r.line.version
  headers := storedHeaders {} (r.lines.map HeaderLine.bytes)
  body := r.body

theorem headView_bytes_append (rest : Bytes) :
    headView (r.bytes ++ rest) = some (writtenView r.line r.lines (r.body ++ rest)) := by
  rw [bytes, head, List.append_assoc]
  exact headView_writeHead r.line r.lines (r.body ++ rest)

theorem methodToken_begins : r.line.methodToken <+: r.bytes := by
  have hline : r.line.methodToken <+: r.line.bytes := List.prefix_append _ _
  have hhead : r.line.bytes <+: r.head := by
    rw [head, writeHead, List.append_assoc, List.append_assoc]
    exact List.prefix_append _ _
  exact hline.trans (hhead.trans (List.prefix_append _ _))

/-! ## Content-Length -/

theorem stoull_length {r : ClientRequest} (h : r.Within limits) :
    stoull (toDecimal r.body.length) = some r.body.length := by
  have := h.body_le
  have := limits.maxBodySize.toNat_lt
  exact stoull_toDecimal (by omega)

/-- The first header lines of a request announce its body or nothing. -/
theorem lengthValue_of_prefix {v : HeadView} (h : v.fields <+: r.lines.map HeaderLine.bytes) :
    v.lengthValue = [] ∨ v.lengthValue = toDecimal r.body.length := by
  obtain ⟨more, hmore⟩ := h
  have hvalues : valuesOf (ascii "content-length") v.fields ++
      valuesOf (ascii "content-length") more =
        valuesOf (ascii "content-length") (r.lines.map HeaderLine.bytes) := by
    rw [← hmore]
    exact (List.filterMap_append).symm
  unfold HeadView.lengthValue
  rcases r.announced with hone | ⟨hnone, -⟩
  · rw [hone] at hvalues
    cases hfirst : valuesOf (ascii "content-length") v.fields with
    | nil => exact .inl rfl
    | cons value others =>
        rw [hfirst, List.cons_append] at hvalues
        obtain ⟨rfl, hothers⟩ := List.cons.inj hvalues
        obtain ⟨rfl, -⟩ := List.append_eq_nil_iff.1 hothers
        exact .inr rfl
  · rw [hnone] at hvalues
    rw [(List.append_eq_nil_iff.1 hvalues).1]
    exact .inl rfl

/-- All of them announce the body, if there is one. -/
theorem lengthValue_eq (after : Bytes) :
    (writtenView r.line r.lines after).lengthValue = toDecimal r.body.length ∨
      (writtenView r.line r.lines after).lengthValue = [] ∧ r.body = [] := by
  rw [HeadView.lengthValue, writtenView]
  rcases r.announced with hone | ⟨hnone, hempty⟩
  · exact .inl (by rw [hone]; rfl)
  · exact .inr ⟨by rw [hnone]; rfl, hempty⟩

theorem bodySize_eq {r : ClientRequest} (h : r.Within limits) (after : Bytes) :
    (writtenView r.line r.lines after).bodySize = r.body.length := by
  have hdecimal := (isDecimal_toDecimal r.body.length).1
  unfold HeadView.bodySize
  rcases r.lengthValue_eq after with hvalue | ⟨hvalue, hempty⟩
  · rw [hvalue, if_neg hdecimal, stoull_length h, Option.getD_some]
  · rw [if_pos hvalue, hempty, List.length_nil]

/-! ## Verdicts -/

/-- A whole request is found, with what follows it left alone. -/
theorem requestVerdict_bytes_append {r : ClientRequest} (hwithin : r.Within limits) {rest : Bytes}
    (h : ¬ crlf <+: r.body ++ rest) :
    requestVerdict limits (r.bytes ++ rest) = .done r.request r.bytes.length := by
  have hskip : extraCrlf (r.body ++ rest) = 0 := if_neg h
  have hcontent : (writtenView r.line r.lines (r.body ++ rest)).content = r.body ++ rest := by
    rw [HeadView.content, rest_writtenView, hskip, List.drop_zero]
  have hready : (writtenView r.line r.lines (r.body ++ rest)).BodyReady limits := by
    rcases r.lengthValue_eq (r.body ++ rest) with hvalue | ⟨hvalue, -⟩
    · refine .inr ⟨r.body.length, hvalue ▸ stoull_length hwithin, hwithin.body_le, ?_⟩
      rw [hcontent, List.length_append]
      exact Nat.le_add_right _ _
    · exact .inl hvalue
  have hrequest : (writtenView r.line r.lines (r.body ++ rest)).request = r.request := by
    have hstart : (writtenView r.line r.lines (r.body ++ rest)).start =
        (r.line.method, r.line.target, r.line.version) := by
      rw [HeadView.start, writtenView, r.line.parseRequestLine_bytes]
      rfl
    rw [HeadView.request, hstart, hcontent, bodySize_eq hwithin, List.take_left]
    rfl
  obtain ⟨hparse, -⟩ := parse_accepts_iff.2
    ⟨_, r.headView_bytes_append rest, valid_writtenView hwithin.line_le hwithin.fields_le _, hready,
      rfl⟩
  rw [requestVerdict, hparse, HeadView.accepted, hrequest, bodySize_eq hwithin, rest_writtenView,
    hskip, bytes_writtenView, Nat.add_zero, bytes, head, List.length_append]
  rfl

/-- Behind a whole head the body is taken when all of it is there. -/
theorem not_ready_of_extend {r : ClientRequest} (hwithin : r.Within limits) {v : HeadView}
    {after more : Bytes} (he : v.ending = .closed after)
    (h : writtenView r.line r.lines r.body = v.extend more) (hmore : 0 < more.length) :
    ¬ v.BodyReady limits := by
  have hrest : v.rest = after := by rw [HeadView.rest, he]
  have hbody : r.body = after ++ more := by
    rw [← hrest, ← HeadView.rest_extend, ← h, rest_writtenView]
  have hlt : after.length < r.body.length := by
    rw [hbody, List.length_append]
    omega
  have hvalue : (writtenView r.line r.lines r.body).lengthValue = v.lengthValue := by
    rw [h, HeadView.lengthValue_extend]
  have hcontent := v.length_content
  rw [hrest] at hcontent
  rw [HeadView.BodyReady, ← hvalue]
  rcases r.lengthValue_eq r.body with hsize | ⟨-, hempty⟩
  · rw [hsize, stoull_length hwithin]
    rintro (hnone | ⟨n, hn, -, hle⟩)
    · exact (isDecimal_toDecimal _).1 hnone
    · cases hn
      omega
  · rw [hempty] at hlt
    exact absurd hlt (Nat.not_lt_zero _)

/-- The beginning of a request is waited for, unless it is misread. -/
theorem requestVerdict_beginning {r : ClientRequest} (hwithin : r.Within limits) {data : Bytes}
    (h : data <+: r.bytes) (hlt : data.length < r.bytes.length) (hread : ¬ Misread limits data) :
    requestVerdict limits data = .more := by
  refine requestVerdict_of_needsMore ?_
  obtain ⟨more, hmore⟩ := h
  have hwhole : headView (data ++ more) = some (writtenView r.line r.lines r.body) := by
    have := r.headView_bytes_append []
    rwa [List.append_nil, List.append_nil, ← hmore] at this
  have hvalid := valid_writtenView hwithin.line_le hwithin.fields_le r.body
  rw [Misread, not_or] at hread
  cases hview : headView data with
  | none => exact .inl ⟨hview, Nat.le_of_not_lt fun hgt => hread.2 ⟨hview, hgt⟩⟩
  | some v =>
      obtain ⟨w, hw, hline, hfields⟩ := headView_append hview more
      cases hwhole.symm.trans hw
      have hv : v.Valid limits := by
        by_contra hnot
        exact not_valid_append hnot hline hfields hvalid
      have hnotReady : ¬ v.BodyReady limits := by
        cases he : v.ending with
        | unclosed p => exact fun hready => hread.1 ⟨v, p, hview, he, hv, hready⟩
        | closed after =>
            -- the head is there, so some of the body is not
            have hsame := Option.some.inj
              (hwhole.symm.trans (headView_extend hview fun p hp => by simp [he] at hp))
            exact not_ready_of_extend hwithin he hsame (by rw [← hmore] at hlt; simpa using hlt)
      rcases r.lengthValue_of_prefix hfields with hnone | hvalue
      · exact absurd (.inl hnone) hnotReady
      · refine .inr ⟨v, hview, hv, hvalue ▸ (isDecimal_toDecimal _).1, r.body.length,
          hvalue ▸ stoull_length hwithin, hwithin.body_le, ?_⟩
        by_contra hle
        exact hnotReady (.inr ⟨r.body.length, hvalue ▸ stoull_length hwithin, hwithin.body_le,
          Nat.le_of_not_lt hle⟩)

/-- No whole request is left at the front of the buffer, unless it is one in which
`parse` steps over a CRLF behind the head. -/
def NoneWhole (limits : ParseLimits) (buffer : Bytes) : Prop :=
  ∀ (r : ClientRequest) (rest : Bytes), r.Within limits → buffer = r.bytes ++ rest →
    crlf <+: r.body ++ rest

/-- Where `parse` asks for more, no other request is left. -/
theorem noneWhole_of_more {buffer : Bytes} (h : requestVerdict limits buffer = .more) :
    NoneWhole limits buffer := by
  rintro r rest hwithin rfl
  by_contra hcrlf
  rw [requestVerdict_bytes_append hwithin hcrlf] at h
  cases h

/-! ## Streams -/

/-- What a client writes when it sends these requests. -/
def stream (rs : List ClientRequest) : Bytes := rs.flatMap bytes

@[simp] theorem stream_nil : stream ([] : List ClientRequest) = [] := rfl

@[simp] theorem stream_cons (r : ClientRequest) (rs : List ClientRequest) :
    stream (r :: rs) = r.bytes ++ stream rs := rfl

@[simp] theorem stream_append (rs rs' : List ClientRequest) :
    stream (rs ++ rs') = stream rs ++ stream rs' := List.flatMap_append

/-- After `n` bytes of the stream the client has come to a point of its next
request at which this is misread. -/
def Mistakable (limits : ParseLimits) : List ClientRequest → Nat → Prop
  | [], _ => False
  | r :: rs, n =>
    if n < r.bytes.length then Misread limits (r.bytes.take n)
    else Mistakable limits rs (n - r.bytes.length)

/-- The whole requests before that point have no part in it. -/
theorem mistakable_append (before rs : List ClientRequest) (n : Nat) :
    Mistakable limits (before ++ rs) ((stream before).length + n) ↔ Mistakable limits rs n := by
  induction before with
  | nil => rw [List.nil_append, stream_nil, List.length_nil, Nat.zero_add]
  | cons r before ih =>
      rw [List.cons_append, Mistakable, stream_cons, List.length_append, if_neg (by omega),
        Nat.add_assoc, Nat.add_sub_cancel_left, ih]

/-- Between two requests nothing is misread. -/
theorem not_mistakable_stream (limits : ParseLimits) (before rs : List ClientRequest) :
    ¬ Mistakable limits (before ++ rs) (stream before).length := by
  have hstart : Mistakable limits (before ++ rs) ((stream before).length + 0) ↔
      Mistakable limits rs 0 := mistakable_append before rs 0
  rw [Nat.add_zero] at hstart
  rw [hstart]
  cases rs with
  | nil => exact id
  | cons r rs =>
      rw [Mistakable]
      split
      · exact not_misread_nil limits
      · next hlt =>
        have hlong := three_le_of_methodFromString r.line.method_ok
        have hlength := r.methodToken_begins.length_le
        omega

/-- A request begins with its method, where there is no CR and no LF. -/
theorem head?_stream {rs : List ClientRequest} {data : Bytes} {b : UInt8}
    (h : data <+: stream rs) (hb : data.head? = some b) : b ≠ CR ∧ b ≠ LF := by
  cases rs with
  | nil =>
      rw [List.prefix_nil.1 h] at hb
      cases hb
  | cons r rs =>
      obtain ⟨c, token, htoken⟩ : ∃ c token, r.line.methodToken = c :: token := by
        have := three_le_of_methodFromString r.line.method_ok
        exact List.exists_cons_of_length_pos (by omega)
      obtain ⟨rest, rfl⟩ : ∃ rest, data = b :: rest := by
        cases data with
        | nil => cases hb
        | cons c rest => exact ⟨rest, by cases hb; rfl⟩
      obtain ⟨more, hmore⟩ := h
      obtain ⟨tail, htail⟩ := r.methodToken_begins
      rw [stream_cons, ← htail, htoken] at hmore
      have hfirst : b = c := (List.cons.inj hmore).1
      have hmem : b ∈ r.line.methodToken := by
        rw [hfirst, htoken]
        exact List.mem_cons_self
      have hletters : ∀ {c : UInt8}, c < 65 → b ≠ c := fun hc he =>
        notMem_of_methodFromString r.line.method_ok hc (he ▸ hmem)
      exact ⟨hletters (by decide), hletters (by decide)⟩

/-- No CRLF stands between the head and the body, whatever follows. -/
theorem not_crlf_prefix {r : ClientRequest} (hbody : ¬ crlf <+: r.body) {rs : List ClientRequest}
    {rest : Bytes} (h : rest <+: stream rs) : ¬ crlf <+: r.body ++ rest := by
  intro hcrlf
  cases hr : r.body with
  | nil =>
      rw [hr, List.nil_append] at hcrlf
      obtain ⟨after, rfl⟩ := hcrlf
      exact (head?_stream h rfl).1 rfl
  | cons b body =>
      rw [hr, List.cons_append, List.cons_prefix_cons] at hcrlf
      obtain ⟨rfl, hlf⟩ := hcrlf
      cases body with
      | nil =>
          rw [List.nil_append] at hlf
          obtain ⟨after, rfl⟩ := hlf
          exact (head?_stream h rfl).2 rfl
      | cons c body =>
          rw [List.cons_append, List.cons_prefix_cons] at hlf
          obtain ⟨rfl, -⟩ := hlf
          exact hbody ⟨body, by rw [hr]; rfl⟩

/-- **The beginning of a stream of requests**: the next request is found when
all of it is there, and waited for when it is not. -/
theorem requestVerdict_stream {rs : List ClientRequest} (hwithin : ∀ r ∈ rs, r.Within limits)
    (hbodies : ∀ r ∈ rs, ¬ crlf <+: r.body) {data : Bytes} (h : data <+: stream rs)
    (hread : ¬ Mistakable limits rs data.length) :
    (∃ r rest more, rs = r :: rest ∧ data = r.bytes ++ more ∧
        requestVerdict limits data = .done r.request r.bytes.length) ∨
      (requestVerdict limits data = .more ∧
        ∀ r rest, rs = r :: rest → data.length < r.bytes.length) := by
  cases rs with
  | nil =>
      obtain rfl := List.prefix_nil.1 h
      exact .inr ⟨requestVerdict_of_needsMore (.inl ⟨rfl, Nat.zero_le _⟩), nofun⟩
  | cons r rest =>
      have hr := hwithin r List.mem_cons_self
      rw [Mistakable] at hread
      by_cases hlt : data.length < r.bytes.length
      · have hbegins : data <+: r.bytes :=
          List.prefix_of_prefix_length_le h (List.prefix_append _ _) (Nat.le_of_lt hlt)
        rw [if_pos hlt, ← List.prefix_iff_eq_take.1 hbegins] at hread
        refine .inr ⟨requestVerdict_beginning hr hbegins hlt hread, fun r' rest' heq => ?_⟩
        cases heq
        exact hlt
      · obtain ⟨more, rfl⟩ : r.bytes <+: data :=
          List.prefix_of_prefix_length_le (List.prefix_append _ _) h (Nat.le_of_not_lt hlt)
        have hmore : more <+: stream rest := (List.prefix_append_right_inj r.bytes).1 h
        refine .inl ⟨r, rest, more, rfl, rfl, requestVerdict_bytes_append hr ?_⟩
        exact not_crlf_prefix (hbodies r List.mem_cons_self) hmore

end ClientRequest

end HttpsServer
