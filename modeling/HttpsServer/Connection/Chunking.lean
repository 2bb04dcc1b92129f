import HttpsServer.Parser.Extension
import HttpsServer.Connection

/-!
# HttpsServer.Connection.Chunking

One client stream, received in different pieces.

`read_request` parses whatever has arrived, so the requests it hands out are
those of the stream only as long as no verdict is given too early.
`readAll_eq_of_steady` states this for whole sessions: two cuttings of one
stream in which the parser is never asked at an arrival-dependent point give
the same requests and the same end.
-/

namespace HttpsServer

/-- A stream cut into the reads that deliver it. -/
structure Cutting (stream : Bytes) where
  reads : List Bytes
  flatten_eq : reads.flatten = stream
  size_ok : ∀ c ∈ reads, c ≠ [] ∧ c.length ≤ 4096

namespace Cutting

/-- What a connection makes of the stream in this cutting. -/
def requests {stream : Bytes} (c : Cutting stream) (limits : ParseLimits) :
    List HttpRequest × Ending := readAll limits [] c.reads

/-- No call of `parse` in the session is made at a point where its verdict
depends on what arrives later. -/
def Steady {stream : Bytes} (c : Cutting stream) (limits : ParseLimits) : Prop :=
  ∀ readBuffer rest, (requestFramer limits).Visits [] c.reads readBuffer rest →
    ¬ ArrivalDependent limits readBuffer rest

end Cutting

/-- Away from the arrival-dependent points the verdicts are settled. -/
theorem settled_of_not_arrivalDependent {limits : ParseLimits} {readBuffer rest : Bytes}
    (h : ¬ ArrivalDependent limits readBuffer rest) :
    (requestFramer limits).Settled readBuffer rest := by
  rcases parse_append_of_settled h with hneed | ⟨r, hr, hs, hr'⟩ | ⟨e, e', -, h2, -, h2', he, he'⟩
  · left
    rcases requestVerdict_cases limits readBuffer with ⟨v, hview, hv, hready, -⟩ | ⟨-, hm⟩ | ⟨hno, -⟩
    · -- a ready body asks for nothing
      exfalso
      rcases hneed with ⟨hnone, -⟩ | ⟨w, hw, -, hpending⟩
      · rw [hview] at hnone
        contradiction
      · rw [hview, Option.some.injEq] at hw
        subst hw
        exact hpending.not_ready hready
    · exact hm
    · exact absurd hneed hno
  · right
    show requestVerdict limits (readBuffer ++ rest) = requestVerdict limits readBuffer
    rw [requestVerdict, requestVerdict, hr, hr']
  · right
    show requestVerdict limits (readBuffer ++ rest) = requestVerdict limits readBuffer
    simp [requestVerdict, he, he', h2, h2']

/-! ## Cuttings of one request -/

/-- A stream that arrives in one read. -/
def Cutting.whole (stream : Bytes) (h : stream ≠ [] ∧ stream.length ≤ 4096) : Cutting stream where
  reads := [stream]
  flatten_eq := by simp
  size_ok := by simpa using h

/-- A stream that arrives in two reads. -/
def Cutting.halves (x y : Bytes) (hx : x ≠ [] ∧ x.length ≤ 4096) (hy : y ≠ [] ∧ y.length ≤ 4096) :
    Cutting (x ++ y) where
  reads := [x, y]
  flatten_eq := by simp
  size_ok := by simpa using ⟨hx, hy⟩

/-- A single read is steady: the parser sees nothing or everything. -/
theorem Cutting.steady_whole (limits : ParseLimits) (stream : Bytes)
    (h : stream ≠ [] ∧ stream.length ≤ 4096) : (Cutting.whole stream h).Steady limits := by
  intro readBuffer rest hvis
  cases hvis with
  | here => exact not_arrivalDependent_of_short rfl (Nat.zero_le _) _
  | read _ hvis =>
      rw [hvis.rest_eq_nil]
      exact not_arrivalDependent_nil limits readBuffer
  | frame hv =>
      have := (requestFramer limits).progress hv
      simp only [List.length_nil] at this
      omega

/-- Two reads are steady when the first one stops inside the request line. -/
theorem Cutting.steady_halves (limits : ParseLimits) (x y : Bytes)
    (hx : x ≠ [] ∧ x.length ≤ 4096) (hy : y ≠ [] ∧ y.length ≤ 4096)
    (hnone : headView x = none) (hle : x.length ≤ limits.maxRequestLineSize.toNat) :
    (Cutting.halves x y hx hy).Steady limits := by
  have hmore : (requestFramer limits).verdict x = .more := by
    show requestVerdict limits x = .more
    have hparse := parseM_of_headView_none hnone limits
    rw [if_neg (by omega)] at hparse
    simp [requestVerdict, parse_eq, hparse, fail]
  intro readBuffer rest hvis
  cases hvis with
  | here => exact not_arrivalDependent_of_short rfl (Nat.zero_le _) _
  | frame hv =>
      have := (requestFramer limits).progress hv
      simp only [List.length_nil] at this
      omega
  | read _ hvis =>
      rw [List.nil_append] at hvis
      cases hvis with
      | here => exact not_arrivalDependent_of_short hnone hle _
      | frame hv =>
          rw [hmore] at hv
          contradiction
      | read _ hvis =>
          rw [hvis.rest_eq_nil]
          exact not_arrivalDependent_nil limits readBuffer

/-! ## Independence of the cutting -/

/-- Two steady cuttings of one stream cannot be told apart. -/
theorem readAll_eq_of_steady (limits : ParseLimits) (stream : Bytes) (c c' : Cutting stream)
    (hc : c.Steady limits) (hc' : c'.Steady limits) : c.requests limits = c'.requests limits := by
  have hrun := run_readAll limits [] c.reads fun r hr => (c.size_ok r hr).1
  have hrun' := run_readAll limits [] c'.reads fun r hr => (c'.size_ok r hr).1
  obtain ⟨hfst, hsnd⟩ := hrun.eq_of_flatten_eq hrun' (by rw [c.flatten_eq, c'.flatten_eq])
    (fun b rest hvis => settled_of_not_arrivalDependent (hc b rest hvis))
    (fun b rest hvis => settled_of_not_arrivalDependent (hc' b rest hvis))
  exact Prod.ext hfst hsnd

/-- A request cut inside its request line. -/
theorem readAll_eq_of_steady_get :
    (Cutting.whole (ascii "GET / HT" ++ ascii "TP/1.1\r\n\r\n") (by decide)).requests {} =
      (Cutting.halves (ascii "GET / HT") (ascii "TP/1.1\r\n\r\n") (by decide) (by decide)).requests {} :=
  readAll_eq_of_steady {} _ _ _ (Cutting.steady_whole {} _ _)
    (Cutting.steady_halves {} _ _ _ _ (by decide +kernel) (by decide +kernel))

/-- The same request cut in front of its empty line: the header lines are
answered on their own, and the empty line is left for the next request. -/
theorem not_readAll_eq_get :
    (Cutting.whole (ascii "GET / HTTP/1.1\r\n" ++ ascii "\r\n") (by decide)).requests {} ≠
      (Cutting.halves (ascii "GET / HTTP/1.1\r\n") (ascii "\r\n") (by decide) (by decide)).requests {} := by
  intro h
  have hwhole : ((Cutting.whole (ascii "GET / HTTP/1.1\r\n" ++ ascii "\r\n")
      (by decide)).requests {}).2 = .endOfStream := by decide +kernel
  have hhalves : ((Cutting.halves (ascii "GET / HTTP/1.1\r\n") (ascii "\r\n")
      (by decide) (by decide)).requests {}).2 = .failed := by decide +kernel
  rw [h, hhalves] at hwhole
  contradiction

end HttpsServer
