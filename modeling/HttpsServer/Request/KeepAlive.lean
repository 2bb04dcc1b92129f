import HttpsServer.Request

/-!
# HttpsServer.Request.KeepAlive

`keep_alive` against the persistence rule of HTTP.

The value of a Connection header is a list of options, with commas between
them.  `keep_alive` compares the value as a whole: it finds `close` only where
that is the one option, and takes every other value, in HTTP/1.0 too, for a
wish to keep the connection.  So it follows the rule except where `close` has
company, and where an HTTP/1.0 request names neither `close` nor `keep-alive`
(`keepAlive_eq_persistent_iff`).
-/

namespace HttpsServer

/-- The options of a Connection value: what stands between its commas, trimmed
and without case. -/
def connectionOptions (value : Bytes) : List Bytes :=
  (value.splitOn 44).map fun piece => lowercase (trimBlanks piece)

/-- A value that is `close` as a whole has no other option. -/
theorem connectionOptions_of_close {value : Bytes}
    (h : lowercase (trimBlanks value) = ascii "close") :
    connectionOptions value = [ascii "close"] := by
  have hcomma : (44 : UInt8) ∉ trimBlanks value := by
    intro hmem
    have hlow : (44 : UInt8) ∈ lowercase (trimBlanks value) := List.mem_map.mpr ⟨44, hmem, rfl⟩
    rw [h] at hlow
    revert hlow
    decide
  obtain ⟨l, r, hvalue, hl, hr⟩ := exists_strip isBlank value
  have hone : value.splitOn 44 = [value] := by
    refine List.splitOn_eq_singleton ?_
    rw [hvalue]
    simp only [List.mem_append, not_or]
    exact ⟨⟨fun hmem => absurd (hl _ hmem) (by decide), hcomma⟩,
      fun hmem => absurd (hr _ hmem) (by decide)⟩
  rw [connectionOptions, hone, List.map_singleton, h]

namespace HttpRequest

/-- The options of the request's Connection value, if it has one. -/
def options (r : HttpRequest) : List Bytes :=
  ((r.headers.get (ascii "Connection")).map connectionOptions).getD []

/-- The connection is to persist after this request. -/
def persistent (r : HttpRequest) : Bool :=
  if r.options.contains (ascii "close") then false
  else r.version = .http11 || r.options.contains (ascii "keep-alive")

/-- Where there is a Connection value, `close` is alone in it or is not in it;
and then a version other than HTTP/1.1 comes with `keep-alive`. -/
def PlainConnection (r : HttpRequest) : Prop :=
  ∀ value ∈ r.headers.get (ascii "Connection"),
    if (connectionOptions value).contains (ascii "close") then
      lowercase (trimBlanks value) = ascii "close"
    else r.version = .http11 ∨ ascii "keep-alive" ∈ connectionOptions value

/-- **`keep_alive` follows the persistence rule** exactly on these requests. -/
theorem keepAlive_eq_persistent_iff (r : HttpRequest) :
    r.keepAlive = r.persistent ↔ r.PlainConnection := by
  unfold keepAlive persistent PlainConnection options
  cases hvalue : r.headers.get (ascii "Connection") with
  | none => simp
  | some value =>
      simp only [Option.map_some, Option.getD_some, Option.mem_some_iff, forall_eq']
      by_cases hwhole : lowercase (trimBlanks value) = ascii "close"
      · have hne : trimBlanks value ≠ [] := fun hnil => by
          rw [hnil] at hwhole
          contradiction
        simp [connectionOptions_of_close hwhole, hwhole, hne]
      · by_cases hclose : ascii "close" ∈ connectionOptions value
        · simp [hwhole, hclose]
        · simp [hwhole, hclose]

/-- `close` next to another option is overlooked. -/
theorem not_keepAlive_eq_persistent_two_options :
    ¬ ∀ r : HttpRequest, r.keepAlive = r.persistent := by
  intro h
  have hkeep := h
    { method := .get
      target := ascii "/"
      version := .http11
      headers := ({} : Headers).set (ascii "Connection") (ascii "keep-alive, close") }
  revert hkeep
  decide

end HttpRequest

end HttpsServer
