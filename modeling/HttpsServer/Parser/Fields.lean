import HttpsServer.Parser.Verdict

/-!
# HttpsServer.Parser.Fields

Line breaks inside the fields of an accepted request.

Only the pair CRLF ends a line, and `trim` takes a CR or an LF off the ends of
a name or a value.  One that stands inside a line on its own is kept: it is
part of the target or of a stored name or value whenever it is a byte of the
request line or of such a part of a header line (`acceptsSingleLine_iff`).
-/

namespace HttpsServer

/-- A byte that some readers take for the end of a line. -/
def isLineBreak (b : UInt8) : Bool := b = CR || b = LF

/-- A blank or a control byte; CR and LF are two of these. -/
def isControl (b : UInt8) : Bool := b ≤ 32 || b = 127

theorem isControl_toLowerByte (b : UInt8) : isControl (toLowerByte b) = isControl b := by
  unfold isControl toLowerByte
  grind

/-- No field of the request can be read as more than one line. -/
structure HttpRequest.SingleLine (request : HttpRequest) : Prop where
  target : ∀ b ∈ request.target, isLineBreak b = false
  names : ∀ e ∈ request.headers.all, ∀ b ∈ e.1, isControl b = false
  values : ∀ e ∈ request.headers.all, ∀ b ∈ e.2, isLineBreak b = false

/-- If `parse` accepts, none of the fields can be read as more than one line. -/
def AcceptsSingleLine (limits : ParseLimits) (data : Bytes) : Prop :=
  ∀ r request, parse limits data = some r → r.success = true → r.request = some request →
    request.SingleLine

namespace HeadView

/-- No CR and no LF stands alone inside the request line or a value that is
kept, and no control byte inside a name. -/
structure Clean (v : HeadView) : Prop where
  requestLine : ∀ b ∈ v.requestLine, isLineBreak b = false
  names : ∀ f ∈ v.fields, ∀ nv ∈ field? f, ∀ b ∈ nv.1, isControl b = false
  values : ∀ name, ∀ value ∈ (valuesOf name v.fields).getLast?, ∀ b ∈ value, isLineBreak b = false

end HeadView

/-! ## What is stored -/

/-- The header map of a run of lines holds the last value of every name. -/
theorem mem_all_storedHeaders {fs : List Bytes} {name value : Bytes} :
    (name, value) ∈ (storedHeaders {} fs).all ↔
      lowercase name = name ∧ (valuesOf name fs).getLast? = some value := by
  have hlookup : lowercase name = name →
      (storedHeaders {} fs).storage.lookup name = (valuesOf name fs).getLast? := by
    intro hlow
    have hget := get_storedHeaders {} fs name
    rw [Headers.get_empty, Option.or_none, Headers.get, hlow] at hget
    exact hget
  constructor
  · intro hmem
    have hlow := Headers.lowercase_of_mem_all hmem
    exact ⟨hlow, by rw [← hlookup hlow]; exact Headers.mem_all.mp hmem⟩
  · rintro ⟨hlow, hlast⟩
    exact Headers.mem_all.mpr (by rw [hlookup hlow, hlast])

/-- A value is listed under the name of its line, without case. -/
theorem mem_valuesOf {name value : Bytes} {fs : List Bytes} :
    value ∈ valuesOf name fs ↔
      ∃ f ∈ fs, ∃ nv, field? f = some nv ∧ lowercase nv.1 = name ∧ nv.2 = value := by
  simp [valuesOf, List.mem_filterMap, Option.bind_eq_some_iff]

/-- Every name of a line is stored in lower case, and no other. -/
theorem storedHeaders_names {P : UInt8 → Prop} (hP : ∀ b, P (toLowerByte b) ↔ P b)
    (fs : List Bytes) :
    (∀ e ∈ (storedHeaders {} fs).all, ∀ b ∈ e.1, P b) ↔
      ∀ f ∈ fs, ∀ nv ∈ field? f, ∀ b ∈ nv.1, P b := by
  constructor
  · intro h f hf nv hnv b hb
    have hmem : nv.2 ∈ valuesOf (lowercase nv.1) fs := mem_valuesOf.mpr ⟨f, hf, nv, hnv, rfl, rfl⟩
    obtain ⟨value, hlast⟩ := List.getLast?_isSome.mpr (List.ne_nil_of_mem hmem) |>
      Option.isSome_iff_exists.mp
    have hstored := mem_all_storedHeaders.mpr ⟨lowercase_lowercase nv.1, hlast⟩
    exact (hP b).mp (h _ hstored _ (List.mem_map.mpr ⟨b, hb, rfl⟩))
  · rintro h ⟨name, value⟩ he b hb
    obtain ⟨-, hlast⟩ := mem_all_storedHeaders.mp he
    obtain ⟨f, hf, nv, hnv, rfl, -⟩ := mem_valuesOf.mp (List.mem_of_getLast? hlast)
    obtain ⟨c, hc, rfl⟩ := List.mem_map.mp hb
    exact (hP c).mpr (h f hf nv hnv c hc)

/-- Of a request line in order, only the target can hold a CR or an LF. -/
theorem lineBreaks_requestLine {line target : Bytes} {m : HttpMethod} {v : HttpVersion}
    (h : parseRequestLine line = .ok (m, target, v)) :
    (∀ b ∈ line, isLineBreak b = false) ↔ ∀ b ∈ target, isLineBreak b = false := by
  obtain ⟨token, rfl, hmethod, hm, -, -⟩ := parseRequestLine_eq_ok h
  have htoken : ∀ b ∈ token, isLineBreak b = false := by
    intro b hb
    by_contra hbreak
    have hlt : b < 65 := by
      simp only [isLineBreak, Bool.not_eq_false, Bool.or_eq_true, decide_eq_true_eq] at hbreak
      rcases hbreak with rfl | rfl <;> decide
    exact notMem_of_methodFromString (hmethod ▸ hm) hlt hb
  have hversion : v.toString.all (fun b => !isLineBreak b) = true := by cases v <;> decide
  have hversion : ∀ b ∈ v.toString, isLineBreak b = false := by simpa using hversion
  have hblank : isLineBreak 32 = false := by decide
  rw [List.forall_mem_append, List.forall_mem_cons, List.forall_mem_append, List.forall_mem_cons]
  exact ⟨fun hline => hline.2.2.1, fun htarget => ⟨htoken, hblank, htarget, hblank, hversion⟩⟩

/-! ## Accepted requests -/

/-- **Line breaks in fields**: an accepted request is free of them exactly
when the lines it was read from are. -/
theorem acceptsSingleLine_iff (limits : ParseLimits) (data : Bytes) :
    AcceptsSingleLine limits data ↔
      ∀ v, headView data = some v → v.Valid limits → v.BodyReady limits → v.Clean := by
  -- both sides speak of the one request that is accepted, if there is one
  have hone : AcceptsSingleLine limits data ↔ ∀ v, headView data = some v → v.Valid limits →
      v.BodyReady limits → v.request.SingleLine := by
    constructor
    · intro h v hview hv hready
      obtain ⟨hparse, hsuccess⟩ := parse_accepts_iff.mpr ⟨v, hview, hv, hready, rfl⟩
      exact h _ _ hparse hsuccess rfl
    · intro h r request hr hsuccess hrequest
      obtain ⟨v, hview, hv, hready, rfl⟩ := parse_accepts_iff.mp ⟨hr, hsuccess⟩
      obtain rfl : v.request = request := Option.some.inj hrequest
      exact h v hview hv hready
  rw [hone]
  refine forall_congr' fun v => forall_congr' fun _ => forall_congr' fun hv =>
    forall_congr' fun _ => ?_
  have hline := lineBreaks_requestLine hv.parseRequestLine_eq
  have hnames := storedHeaders_names (P := fun b => isControl b = false)
    (fun b => by rw [isControl_toLowerByte]) v.fields
  have hvalues : (∀ e ∈ v.request.headers.all, ∀ b ∈ e.2, isLineBreak b = false) ↔
      ∀ name, ∀ value ∈ (valuesOf name v.fields).getLast?, ∀ b ∈ value, isLineBreak b = false := by
    constructor
    · intro h name value hlast
      obtain ⟨f, -, nv, -, rfl, -⟩ := mem_valuesOf.mp (List.mem_of_getLast? hlast)
      exact h _ (mem_all_storedHeaders.mpr ⟨lowercase_lowercase nv.1, hlast⟩)
    · rintro h ⟨name, value⟩ he
      exact h name value (mem_all_storedHeaders.mp he).2
  exact ⟨fun h => ⟨hline.mpr h.target, hnames.mp h.names, hvalues.mp h.values⟩,
    fun h => ⟨hline.mp h.requestLine, hnames.mpr h.names, hvalues.mpr h.values⟩⟩

/-- One header line of the parser, two of a reader that ends lines at an LF. -/
theorem not_acceptsSingleLine_value :
    ¬ AcceptsSingleLine {} (ascii "GET / HTTP/1.1\r\nX: a\nAdmin: true\r\n\r\n") := by
  intro h
  have hparse : ((parse {} (ascii "GET / HTTP/1.1\r\nX: a\nAdmin: true\r\n\r\n")).map fun r =>
      (r.success, r.request.map fun request => request.headers.all)) =
      some (true, some [(ascii "x", ascii "a\nAdmin: true")]) := by decide +kernel
  obtain ⟨r, hr, hpair⟩ := Option.map_eq_some_iff.mp hparse
  obtain ⟨hsuccess, hmap⟩ := Prod.mk.inj hpair
  obtain ⟨request, hrequest, hall⟩ := Option.map_eq_some_iff.mp hmap
  have hmem : (ascii "x", ascii "a\nAdmin: true") ∈ request.headers.all := by simp [hall]
  have := (h r request hr hsuccess hrequest).values _ hmem LF (by decide)
  contradiction

end HttpsServer
