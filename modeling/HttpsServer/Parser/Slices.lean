import HttpsServer.Connection

/-!
# HttpsServer.Parser.Slices

An accepted request is decided by its own bytes.

`parse` sees everything that has been received, and accepts a request from the
front of it.  The bytes behind the ones it consumes have no part in that: taken
by themselves, the consumed bytes give the same request (`requestVerdict_take`).
-/

namespace HttpsServer

namespace HeadView

/-- The view of the head with no more than `k` bytes behind it. -/
def truncate (v : HeadView) (k : Nat) : HeadView where
  requestLine := v.requestLine
  fields := v.fields
  ending :=
    match v.ending with
    | .closed after => .closed (after.take k)
    | .unclosed rest => .unclosed (rest.take k)

@[simp] theorem bytes_truncate (v : HeadView) (k : Nat) : (v.truncate k).bytes = v.bytes := by
  unfold truncate bytes
  cases v.ending <;> rfl

@[simp] theorem rest_truncate (v : HeadView) (k : Nat) : (v.truncate k).rest = v.rest.take k := by
  unfold truncate rest
  cases v.ending <;> rfl

@[simp] theorem bodySize_truncate (v : HeadView) (k : Nat) : (v.truncate k).bodySize = v.bodySize :=
  rfl

/-- The bytes of the body are left, and so are the two that may stand before
them. -/
theorem extraCrlf_take {rest : Bytes} {k : Nat} (hk : extraCrlf rest ≤ k) :
    extraCrlf (rest.take k) = extraCrlf rest := by
  unfold extraCrlf at hk ⊢
  by_cases hcrlf : crlf <+: rest
  · rw [if_pos hcrlf] at hk
    rw [if_pos hcrlf, if_pos (List.prefix_take_iff.2 ⟨hcrlf, by simpa using hk⟩)]
  · rw [if_neg hcrlf, if_neg fun h => hcrlf (h.trans (List.take_prefix k rest))]

theorem content_truncate (v : HeadView) :
    (v.truncate (extraCrlf v.rest + v.bodySize)).content = v.content.take v.bodySize := by
  rw [content, rest_truncate, extraCrlf_take (Nat.le_add_right _ _), List.drop_take, content,
    Nat.add_sub_cancel_left]

theorem accepted_truncate (v : HeadView) :
    (v.truncate (extraCrlf v.rest + v.bodySize)).accepted = v.accepted := by
  have hrequest : (v.truncate (extraCrlf v.rest + v.bodySize)).request = v.request := by
    unfold request
    rw [content_truncate, bodySize_truncate, List.take_take, Nat.min_self]
    rfl
  unfold accepted
  rw [hrequest, bytes_truncate, rest_truncate, extraCrlf_take (Nat.le_add_right _ _),
    bodySize_truncate]

theorem BodyReady.truncate {limits : ParseLimits} {v : HeadView} (h : v.BodyReady limits) :
    (v.truncate (extraCrlf v.rest + v.bodySize)).BodyReady limits := by
  by_cases hempty : v.lengthValue = []
  · exact .inl hempty
  · obtain ⟨n, hn, hmax, hle⟩ := h.resolve_left hempty
    have hsize : v.bodySize = n := by rw [bodySize, if_neg hempty, hn, Option.getD_some]
    refine .inr ⟨n, hn, hmax, ?_⟩
    rw [content_truncate, List.length_take, hsize]
    omega

end HeadView

/-- The lines of the head are where they were. -/
theorem headView_truncate {data : Bytes} {v : HeadView} (h : headView data = some v) (k : Nat) :
    headView (v.bytes ++ v.rest.take k) = some (v.truncate k) := by
  obtain ⟨-, hline, hfields, hending⟩ := headView_eq_some.1 h
  refine headView_eq_some.2 ⟨by simp, hline, hfields, fun p hp => ?_⟩
  unfold HeadView.truncate at hp
  cases he : v.ending with
  | closed after => simp [he] at hp
  | unclosed rest =>
      simp only [he, BlockEnd.unclosed.injEq] at hp
      rw [← hp]
      exact fun hin => hending rest he (hin.trans (List.take_prefix k rest).isInfix)

/-- **A request is decided by its own bytes.** -/
theorem requestVerdict_take {limits : ParseLimits} {data : Bytes} {request : HttpRequest}
    {consumed : Nat} (h : requestVerdict limits data = .done request consumed) :
    requestVerdict limits (data.take consumed) = .done request consumed := by
  rcases requestVerdict_cases limits data with ⟨v, hview, hvalid, hready, he⟩ | ⟨-, he⟩ | ⟨-, -, he⟩
  · rw [h] at he
    cases he
    have hdata := (headView_eq_some.1 hview).1
    have htake : data.take v.accepted.consumed =
        v.bytes ++ v.rest.take (extraCrlf v.rest + v.bodySize) := by
      rw [hdata, HeadView.accepted, Nat.add_assoc, List.take_length_add_append]
    have hslice := headView_truncate hview (extraCrlf v.rest + v.bodySize)
    have haccepted := parse_accepts_iff.2
      ⟨_, hslice, ⟨hvalid.1, hvalid.2, hvalid.3, hvalid.4⟩, hready.truncate, rfl⟩
    rw [htake, requestVerdict, haccepted.1, HeadView.accepted_truncate]
    rfl
  · rw [h] at he
    cases he
  · rw [h] at he
    cases he

end HttpsServer
