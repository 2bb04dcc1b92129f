import HttpsServer.Parser.Message

/-!
# HttpsServer.Parser.Decoding

What `parse` makes of a head without a body.

The parts of the head are written one after the other, and `parse` gives each
of them back, whatever follows the head: the first and the last blank of the
request line are those that were written, and the header map holds the last
value under every name (`parse_head`).
-/

namespace HttpsServer

/-- A name of the method, in any letter case. -/
theorem methodFromString_of_lowercase {token : Bytes} {m : HttpMethod}
    (h : lowercase token = lowercase m.toString) : methodFromString token = m := by
  rw [← methodFromString_toString m]
  unfold methodFromString
  rw [h]

namespace RequestLine

/-- A request line from its parts. -/
def ofParts (m : HttpMethod) (token target : Bytes) (v : HttpVersion) (hm : m ≠ .unknown)
    (htoken : lowercase token = lowercase m.toString) (hslash : target.head? = some 47)
    (htarget : ¬ crlf <:+: target) (hv : v ≠ .unknown) : RequestLine where
  methodToken := token
  target := target
  version := v
  method_ok := by
    rw [methodFromString_of_lowercase htoken]
    exact hm
  target_ok := hslash
  version_ok := hv
  line_ok := by
    have hblank : ∀ {l r : Bytes}, crlf <:+: l ++ 32 :: r ↔ crlf <:+: l ∨ crlf <:+: r :=
      pair_infix_append_cons (by decide) (by decide)
    have hversion : ¬ crlf <:+: v.toString := by cases v <;> decide
    rw [hblank, hblank, not_or, not_or]
    have hmethod : methodFromString token ≠ .unknown := by
      rw [methodFromString_of_lowercase htoken]
      exact hm
    have hCR : CR ∉ token := notMem_of_methodFromString hmethod (by decide)
    exact ⟨fun hin => hCR (hin.subset (by simp)), htarget, hversion⟩

end RequestLine

/-- **Head decoding**: `parse` gives back the parts of a head that announces
no body, whatever follows it. -/
theorem parse_head {limits : ParseLimits} {m : HttpMethod} {token target : Bytes} {v : HttpVersion}
    (hm : m ≠ .unknown) (htoken : lowercase token = lowercase m.toString)
    (hslash : target.head? = some 47) (htarget : ¬ crlf <:+: target) (hv : v ≠ .unknown)
    {hs : List HeaderLine} (hlength : ∀ h ∈ hs, ¬ h.IsCalled (ascii "content-length"))
    (hline : (token ++ 32 :: (target ++ 32 :: v.toString)).length ≤
      limits.maxRequestLineSize.toNat)
    (hfields : (joinLines CR LF (hs.map HeaderLine.bytes)).length ≤ limits.maxHeaderSize.toNat)
    (trailing : Bytes) :
    ∃ r request, parse limits (token ++ 32 :: (target ++ 32 :: v.toString) ++ crlf ++
          joinLines CR LF (hs.map HeaderLine.bytes) ++ crlf ++ trailing) = some r ∧
      r.success = true ∧ r.request = some request ∧ request.method = m ∧ request.target = target ∧
      request.version = v ∧ request.body = [] ∧
      ∀ name, request.headers.get name =
        (hs.filter fun h => h.IsCalled (lowercase name)).getLast?.map fun h =>
          trimBlanks h.value := by
  let l : RequestLine := .ofParts m token target v hm htoken hslash htarget hv
  have hview := headView_writeHead l hs trailing
  have hvalid : (writtenView l hs trailing).Valid limits :=
    valid_writtenView (l := l) hline hfields trailing
  have hnone : (writtenView l hs trailing).lengthValue = [] := by
    have hfilter : hs.filter (fun h => h.IsCalled (ascii "content-length")) = [] := by
      simpa using hlength
    have hvalues := valuesOf_map_bytes (ascii "content-length") hs
    rw [hfilter] at hvalues
    rw [HeadView.lengthValue, writtenView, hvalues]
    rfl
  obtain ⟨hparse, hsuccess⟩ := parse_accepts_iff.mpr ⟨_, hview, hvalid, .inl hnone, rfl⟩
  have hstart : (writtenView l hs trailing).start = (m, target, v) := by
    rw [HeadView.start, writtenView, l.parseRequestLine_bytes]
    exact congrArg (·, target, v) (methodFromString_of_lowercase htoken)
  refine ⟨_, (writtenView l hs trailing).request, hparse, hsuccess, rfl, ?_, ?_, ?_, ?_, fun name => ?_⟩
  · rw [HeadView.request, hstart]
  · rw [HeadView.request, hstart]
  · rw [HeadView.request, hstart]
  · simp [HeadView.request, HeadView.bodySize, hnone]
  · rw [HeadView.request, get_storedHeaders, Headers.get_empty, Option.or_none, writtenView,
      valuesOf_map_bytes, List.getLast?_map]

/-- A blank in the target, and a name that occurs twice. -/
theorem parse_head_twice :
    ∃ r request, parse {} (ascii "gEt /a b HTTP/1.0\r\nHost: a\r\nHOST:\tb \r\n\r\nrest") = some r ∧
      r.request = some request ∧ request.target = ascii "/a b" ∧
      request.headers.get (ascii "host") = some (ascii "b") := by
  obtain ⟨r, request, hparse, -, hrequest, -, htarget, -, -, hget⟩ :=
    @parse_head {} .get (ascii "gEt") (ascii "/a b") .http10 (by decide) (by decide) (by decide)
      (by decide) (by decide)
      [⟨ascii "Host", ascii " a", by decide, by decide, by decide⟩,
        ⟨ascii "HOST", ascii "\tb ", by decide, by decide, by decide⟩]
      (by decide) (by decide) (by decide) (ascii "rest")
  refine ⟨r, request, ?_, hrequest, htarget, ?_⟩
  · refine (congrArg (parse {}) ?_).trans hparse
    decide
  · rw [hget]
    decide

end HttpsServer
