import HttpsServer.Parser.Verdict

/-!
# HttpsServer.Parser.Message

Requests as a client writes them: a request line, header lines and an empty
line.  `RequestLine` and `HeaderLine` carry the proof that they can be written
on one line and read back, so a head built from them is cut exactly where it
was joined (`headView_writeHead`) and every one of its lines is in order
(`parseRequestLine_bytes`, `HeaderLine.field?_bytes`).
-/

namespace HttpsServer

/-! ## Lines -/

/-- A request line: a method name in any letter case, a target that starts
with `/`, and a version. -/
structure RequestLine where
  methodToken : Bytes
  target : Bytes
  version : HttpVersion
  method_ok : methodFromString methodToken ≠ .unknown
  target_ok : target.head? = some 47
  version_ok : version ≠ .unknown
  line_ok : ¬ crlf <:+: methodToken ++ 32 :: (target ++ 32 :: version.toString)

/-- A header line: a name that is not blank and has no colon in it, a colon
and a value. -/
structure HeaderLine where
  name : Bytes
  value : Bytes
  name_ok : trimBlanks name ≠ []
  colon_ok : 58 ∉ name
  line_ok : ¬ crlf <:+: name ++ 58 :: value

namespace RequestLine

def method (l : RequestLine) : HttpMethod := methodFromString l.methodToken

def bytes (l : RequestLine) : Bytes := l.methodToken ++ 32 :: (l.target ++ 32 :: l.version.toString)

theorem blank_notMem_methodToken (l : RequestLine) : (32 : UInt8) ∉ l.methodToken :=
  notMem_of_methodFromString l.method_ok (by decide)

theorem blank_notMem_version (l : RequestLine) : (32 : UInt8) ∉ l.version.toString := by
  cases l.version <;> decide

/-- **A request line reads back** as its method, its target and its version. -/
theorem parseRequestLine_bytes (l : RequestLine) :
    parseRequestLine l.bytes = .ok (l.method, l.target, l.version) := by
  have hfirst : l.bytes.idxOf? 32 = some l.methodToken.length :=
    idxOf?_append_cons l.blank_notMem_methodToken
  have hlast : rfindChar 32 l.bytes = some (l.methodToken.length + 1 + l.target.length) := by
    have := rfindChar_append_cons (l.methodToken ++ 32 :: l.target) l.blank_notMem_version
    simp only [List.append_assoc, List.cons_append, List.length_append, List.length_cons] at this
    rw [bytes, this]
    congr 1
    omega
  have htarget : l.target ≠ [] := by
    have := l.target_ok
    intro he
    simp [he] at this
  have hpos : 0 < l.target.length := List.length_pos_iff.mpr htarget
  have hmethod : substr l.bytes 0 l.methodToken.length = .ok l.methodToken := by
    have := substr_append [] l.methodToken (32 :: (l.target ++ 32 :: l.version.toString))
    simpa [bytes] using this
  have htoken : substr l.bytes (l.methodToken.length + 1) l.target.length = .ok l.target := by
    have := substr_append (l.methodToken ++ [32]) l.target (32 :: l.version.toString)
    simpa [bytes] using this
  have hversion : substr l.bytes (l.methodToken.length + 1 + l.target.length + 1) l.bytes.length =
      .ok l.version.toString := by
    rw [substr, substr?_of_le (by simp [bytes]; omega)]
    have hdrop : l.bytes.drop (l.methodToken.length + 1 + l.target.length + 1) =
        l.version.toString := by
      rw [show l.bytes = (l.methodToken ++ 32 :: l.target ++ [32]) ++ l.version.toString by
        simp [bytes]]
      exact List.drop_left' (by simp; omega)
    rw [hdrop, List.take_of_length_le (by simp [bytes]; omega)]
    rfl
  unfold parseRequestLine
  rw [hfirst, hlast]
  simp only
  rw [if_neg (by omega), show l.methodToken.length + 1 + l.target.length - l.methodToken.length - 1 =
    l.target.length by omega, hmethod, htoken, hversion]
  have hv : versionFromString l.version.toString = l.version :=
    (versionFromString_eq l.version_ok).mpr rfl
  simp [bind, Except.bind, l.method_ok, l.target_ok, hv, l.version_ok, method, pure, Except.pure]

end RequestLine

namespace HeaderLine

def bytes (h : HeaderLine) : Bytes := h.name ++ 58 :: h.value

theorem isLine_bytes (h : HeaderLine) : IsLine CR LF h.bytes := ⟨by simp [bytes], h.line_ok⟩

/-- **A header line reads back** as its trimmed name and its trimmed value. -/
theorem field?_bytes (h : HeaderLine) :
    field? h.bytes = some (trimBlanks h.name, trimBlanks h.value) := by
  have hcolon : h.bytes.idxOf? 58 = some h.name.length := idxOf?_append_cons h.colon_ok
  have hname : substr h.bytes 0 h.name.length = .ok h.name := by
    simpa [bytes] using substr_append [] h.name (58 :: h.value)
  have hvalue : substr h.bytes (h.name.length + 1) h.bytes.length = .ok h.value := by
    rw [substr, substr?_of_le (by simp [bytes])]
    have hdrop : h.bytes.drop (h.name.length + 1) = h.value := by
      rw [show h.bytes = (h.name ++ [58]) ++ h.value by simp [bytes]]
      exact List.drop_left' (by simp)
    rw [hdrop, List.take_of_length_le (by simp [bytes]; omega)]
    rfl
  simp only [field?, parseHeaderLine, hcolon, hname, hvalue, bind, Except.bind]
  rw [if_neg h.name_ok]
  rfl

/-- Called `name` in any letter case; `name` is given in lower case. -/
def IsCalled (name : Bytes) (h : HeaderLine) : Prop := lowercase (trimBlanks h.name) = name

instance (name : Bytes) (h : HeaderLine) : Decidable (h.IsCalled name) := by
  unfold IsCalled; infer_instance

end HeaderLine

/-- The values under `name` among written header lines. -/
theorem valuesOf_map_bytes (name : Bytes) (hs : List HeaderLine) :
    valuesOf name (hs.map HeaderLine.bytes) =
      (hs.filter fun h => h.IsCalled name).map fun h => trimBlanks h.value := by
  induction hs with
  | nil => rfl
  | cons h hs ih =>
      rw [List.map_cons, valuesOf_cons, ih]
      by_cases hc : h.IsCalled name
      · have hl : lowercase (trimBlanks h.name) = name := hc
        simp [valuesOf, HeaderLine.field?_bytes, hc, hl]
      · have hl : ¬ lowercase (trimBlanks h.name) = name := hc
        simp [valuesOf, HeaderLine.field?_bytes, hc, hl]

/-! ## Heads -/

/-- Request line, header lines and the empty line. -/
def writeHead (l : RequestLine) (hs : List HeaderLine) : Bytes :=
  l.bytes ++ crlf ++ joinLines CR LF (hs.map HeaderLine.bytes) ++ crlf

/-- The view of a written head. -/
def writtenView (l : RequestLine) (hs : List HeaderLine) (after : Bytes) : HeadView :=
  ⟨l.bytes, hs.map HeaderLine.bytes, .closed after⟩

@[simp] theorem bytes_writtenView (l : RequestLine) (hs : List HeaderLine) (after : Bytes) :
    (writtenView l hs after).bytes = writeHead l hs := rfl

@[simp] theorem rest_writtenView (l : RequestLine) (hs : List HeaderLine) (after : Bytes) :
    (writtenView l hs after).rest = after := rfl

/-- **A written head is cut where it was joined**, whatever follows it. -/
theorem headView_writeHead (l : RequestLine) (hs : List HeaderLine) (after : Bytes) :
    headView (writeHead l hs ++ after) = some (writtenView l hs after) := by
  refine headView_eq_some.mpr ⟨rfl, l.line_ok, ?_, nofun⟩
  intro f hf
  obtain ⟨h, -, rfl⟩ := List.mem_map.mp hf
  exact h.isLine_bytes

/-- A written head within the limits is valid. -/
theorem valid_writtenView {limits : ParseLimits} {l : RequestLine} {hs : List HeaderLine}
    (hl : l.bytes.length ≤ limits.maxRequestLineSize.toNat)
    (hhs : (joinLines CR LF (hs.map HeaderLine.bytes)).length ≤ limits.maxHeaderSize.toNat)
    (after : Bytes) : (writtenView l hs after).Valid limits where
  requestLine_le := hl
  requestLine_ok := by
    rw [writtenView, l.parseRequestLine_bytes]
    rfl
  fields_ok := by
    intro f hf
    obtain ⟨h, -, rfl⟩ := List.mem_map.mp hf
    simp [h.field?_bytes]
  fields_le := hhs

/-! ## Content-Length -/

/-- The line `Content-Length: ` with these digits. -/
def lengthLine (digits : Bytes) (h : IsDecimal digits) : HeaderLine where
  name := ascii "Content-Length"
  value := 32 :: digits
  name_ok := by decide
  colon_ok := by decide
  line_ok := by
    -- there is no CR in it
    have hcr : CR ∉ ascii "Content-Length" ++ 58 :: 32 :: digits := by
      simp only [List.mem_append, List.mem_cons, not_or]
      refine ⟨by decide, by decide, by decide, fun hmem => ?_⟩
      have := h.2 _ hmem
      contradiction
    exact fun hin => hcr (hin.subset (by simp))

theorem isCalled_lengthLine {digits : Bytes} (h : IsDecimal digits) :
    (lengthLine digits h).IsCalled (ascii "content-length") := by
  show lowercase (trimBlanks (ascii "Content-Length")) = ascii "content-length"
  decide

/-- The value of the line is the number itself. -/
theorem trimBlanks_lengthLine {digits : Bytes} (h : IsDecimal digits) :
    trimBlanks (lengthLine digits h).value = digits := by
  have hblank : ∀ b ∈ digits, isBlank b = false := by
    intro b hb
    have := h.2 b hb
    simp only [isDigit, Bool.and_eq_true, decide_eq_true_eq] at this
    simp only [isBlank, Bool.or_eq_false_iff, decide_eq_false_iff_not]
    grind
  have := strip_append_append isBlank [32] [] (List.forall_mem_singleton.2 (by decide)) (by simp)
    (hblank _ (List.head_mem h.1)) (hblank _ (List.getLast_mem h.1))
    (List.head?_eq_some_head h.1) (List.getLast?_eq_some_getLast h.1)
  simpa [trimBlanks, lengthLine] using this

/-- The line `Content-Length: n`. -/
def contentLengthLine (n : Nat) : HeaderLine where
  name := ascii "Content-Length"
  value := 32 :: toDecimal n
  name_ok := by decide
  colon_ok := by decide
  line_ok := (lengthLine _ (isDecimal_toDecimal n)).line_ok

theorem isCalled_contentLengthLine (n : Nat) :
    (contentLengthLine n).IsCalled (ascii "content-length") :=
  isCalled_lengthLine (isDecimal_toDecimal n)

theorem trimBlanks_contentLengthLine (n : Nat) :
    trimBlanks (contentLengthLine n).value = toDecimal n :=
  trimBlanks_lengthLine (isDecimal_toDecimal n)

end HttpsServer
