import HttpsServer.Parser.Verdict

/-!
# HttpsServer.Parser.Bounds

`parse` stays inside its input.

The cursor never leaves `data`: the header loop starts behind the request
line, moves forward, and stops at a CRLF or where there is none
(`headerLoop_bounds`).  So every slice behind the loop is in bounds and the
three guards that follow it are never taken, which is stated by putting
something arbitrary in their place (`parseWith`).
-/

namespace HttpsServer

/-! ## The cursor -/

/-- **The header loop keeps the cursor inside `data`** and never moves it back. -/
theorem headerLoop_bounds {limits : ParseLimits} {data : Bytes} {cursor c : Nat}
    {st st' : HeaderState} (hle : cursor ≤ data.length)
    (h : headerLoop limits data cursor st = .ok (c, st')) : cursor ≤ c ∧ c ≤ data.length := by
  induction hn : data.length - cursor using Nat.strongRecOn generalizing cursor st with
  | _ n ih =>
      cases hfind : findFrom crlf data cursor with
      | none =>
          rw [headerLoop_of_none hfind] at h
          cases h
          exact ⟨le_rfl, hle⟩
      | some e =>
          have hb := findFrom_bounds hfind
          simp only [List.length_cons, List.length_nil] at hb
          rw [headerLoop_of_some hfind] at h
          cases hline : substr data cursor (e - cursor) with
          | error x => simp [hline, Except.bind] at h
          | ok line =>
              simp only [hline, Except.bind] at h
              split at h
              · cases h
                exact ⟨by omega, by omega⟩
              · split at h
                · contradiction
                · have := ih _ (by omega) (by omega) h rfl
                  exact ⟨by omega, this.2⟩

/-- Behind the cursor the guards see nothing to object to. -/
theorem frameBodyWith_of_bounds (taken : LateGuard → Nat → ParseM ParseResult)
    (limits : ParseLimits) {data : Bytes} (request : HttpRequest) {cursor : Nat} (st : HeaderState)
    (hpos : 0 < cursor) (hle : cursor ≤ data.length) :
    frameBodyWith taken limits data request cursor st =
      frameBodyWith LateGuard.exit limits data request cursor st := by
  have hnext : substr data cursor 2 = .ok ((data.drop cursor).take 2) := by
    rw [substr, substr?_of_le hle]
    rfl
  unfold frameBodyWith
  rw [if_neg (by omega), if_neg (by omega), hnext]
  simp only [bind, Except.bind]
  -- the body starts behind the cursor and not behind the end
  generalize hstart : (if (data.drop cursor).take 2 = crlf then cursor + 2 else cursor) = bodyStart
  have hbody : 0 < bodyStart ∧ bodyStart ≤ data.length := by
    rw [← hstart]
    split
    · next hcrlf =>
      have := congrArg List.length hcrlf
      simp only [List.length_take, List.length_drop, List.length_cons, List.length_nil] at this
      omega
    · exact ⟨hpos, hle⟩
  by_cases hclv : st.contentLengthValue = []
  · simp only [hclv, ne_eq, not_true_eq_false, if_false, pure, Except.pure]
    rw [if_neg (by omega), if_neg (by omega), if_neg (by omega), if_neg (by omega)]
  · simp only [hclv, ne_eq, not_false_eq_true, if_true]
    cases stoull st.contentLengthValue with
    | none => rfl
    | some n =>
        by_cases hmax : n > limits.maxBodySize.toNat
        · simp only [if_pos hmax]
          rfl
        · by_cases hlt : data.length - bodyStart < n
          · simp only [if_neg hmax, if_pos hlt]
            rfl
          · simp only [if_neg hmax, if_neg hlt]
            cases substr data bodyStart n with
            | error x => rfl
            | ok body =>
                simp only [pure, Except.pure]
                rw [if_neg (by omega), if_neg (by omega), if_neg (by omega), if_neg (by omega)]

/-- Two ways to go on need to agree only on what there is to go on from. -/
theorem bind_congr_ok {β γ : Type} {x : ParseM β} {f g : β → ParseM γ}
    (h : ∀ a, x = .ok a → f a = g a) : x >>= f = x >>= g := by
  cases x with
  | error e => rfl
  | ok a => exact h a rfl

/-- **The guards are never taken**: what they do makes no difference. -/
theorem parseWith_eq (taken : LateGuard → Nat → ParseM ParseResult) (limits : ParseLimits)
    (data : Bytes) : parseWith taken limits data = parse limits data := by
  have hM : parseMWith taken limits data = parseMWith LateGuard.exit limits data := by
    unfold parseMWith
    split
    · rfl
    · cases hfind : findFrom crlf data 0 with
      | none => rfl
      | some e =>
          have hb := findFrom_bounds hfind
          simp only [List.length_cons, List.length_nil] at hb
          by_cases hmax : e > limits.maxRequestLineSize.toNat
          · simp only [if_pos hmax]
          · simp only [if_neg hmax]
            refine bind_congr_ok fun line _ => bind_congr_ok fun x _ => bind_congr_ok fun r hloop => ?_
            have hc := headerLoop_bounds (by omega) hloop
            exact frameBodyWith_of_bounds taken limits _ _ (by omega) hc.2
  rw [parse, parseWith, parseWith, hM]

/-! ## Accepted requests -/

namespace HeadView

/-- The bytes an accepted request takes up end in its body. -/
theorem accepted_body {limits : ParseLimits} {data : Bytes} {v : HeadView}
    (hview : headView data = some v) (hready : v.BodyReady limits) :
    (data.take v.accepted.consumed).drop (v.accepted.consumed - v.request.body.length) =
      v.request.body := by
  have hcut : data.drop (v.bytes.length + extraCrlf v.rest) = v.content := by
    rw [(headView_eq_some.mp hview).1, List.drop_length_add_append]
    rfl
  rw [hready.length_body, accepted, Nat.add_sub_cancel, List.drop_take, Nat.add_sub_cancel_left, hcut]
  rfl

/-- Between the head and the body there are the empty line and a CRLF, or one
of them, or nothing. -/
theorem accepted_separators (v : HeadView) :
    ∃ s, (s = 0 ∨ s = 2 ∨ s = 4) ∧ v.accepted.consumed =
      v.requestLine.length + 2 + (joinLines CR LF v.fields).length + v.bodySize + s := by
  have hempty : ∃ c, (c = 0 ∨ c = 2) ∧ v.bytes.length =
      v.requestLine.length + 2 + (joinLines CR LF v.fields).length + c := by
    refine ⟨_, ?_, v.length_bytes⟩
    cases v.ending <;> simp
  have hextra : extraCrlf v.rest = 0 ∨ extraCrlf v.rest = 2 := by
    unfold extraCrlf
    split <;> simp
  obtain ⟨c, hc, hbytes⟩ := hempty
  refine ⟨c + extraCrlf v.rest, by omega, ?_⟩
  simp only [accepted]
  omega

end HeadView

/-- **Parser bounds**: no exception leaves `parse`, its late guards are never
taken, and an accepted request keeps to the limits and to the bytes that are
there. -/
theorem parse_bounds (limits : ParseLimits) (data : Bytes) :
    (parse limits data).isSome ∧
      (∀ taken, parseWith taken limits data = parse limits data) ∧
      ∀ r request, parse limits data = some r → r.success = true → r.request = some request →
        ∃ v, headView data = some v ∧
          v.requestLine.length ≤ limits.maxRequestLineSize.toNat ∧
          (joinLines CR LF v.fields).length ≤ limits.maxHeaderSize.toNat ∧
          request.body.length ≤ limits.maxBodySize.toNat ∧
          16 ≤ r.consumed ∧ r.consumed ≤ data.length ∧
          (data.take r.consumed).drop (r.consumed - request.body.length) = request.body ∧
          ∃ s, (s = 0 ∨ s = 2 ∨ s = 4) ∧ r.consumed =
            v.requestLine.length + 2 + (joinLines CR LF v.fields).length +
              request.body.length + s := by
  refine ⟨?_, fun taken => parseWith_eq taken limits data, ?_⟩
  · rcases parse_cases limits data with ⟨v, -, -, -, h⟩ | ⟨-, h⟩ | ⟨-, -, e, -, -, h⟩ <;>
      rw [h] <;> rfl
  · intro r request hr hsuccess hrequest
    obtain ⟨v, hview, hv, hready, rfl⟩ := parse_accepts_iff.mp ⟨hr, hsuccess⟩
    obtain rfl : v.request = request := Option.some.inj hrequest
    obtain ⟨hmin, hmax⟩ := HeadView.accepted_consumed hview hv hready
    refine ⟨v, hview, hv.requestLine_le, hv.fields_le, ?_, hmin, hmax,
      HeadView.accepted_body hview hready, ?_⟩
    · rw [hready.length_body]
      exact hready.bodySize_le.2
    · rw [hready.length_body]
      exact v.accepted_separators

/-- A body of three bytes, and a byte that is not part of the request. -/
theorem parse_bounds_post :
    ∃ r request, parse {} (ascii "POST / HTTP/1.1\r\nContent-Length: 3\r\n\r\nabcd") = some r ∧
      r.request = some request ∧ r.consumed ≤ 42 ∧
      ((ascii "POST / HTTP/1.1\r\nContent-Length: 3\r\n\r\nabcd").take r.consumed).drop
        (r.consumed - request.body.length) = request.body := by
  obtain ⟨hsome, -, haccepted⟩ :=
    parse_bounds {} (ascii "POST / HTTP/1.1\r\nContent-Length: 3\r\n\r\nabcd")
  obtain ⟨r, hr⟩ := Option.isSome_iff_exists.mp hsome
  have hsuccess : (parse {} (ascii "POST / HTTP/1.1\r\nContent-Length: 3\r\n\r\nabcd")).map
      ParseResult.success = some true := by decide +kernel
  rw [hr, Option.map_some, Option.some.injEq] at hsuccess
  obtain ⟨request, hrequest⟩ := Option.isSome_iff_exists.mp (Bool.and_eq_true_iff.mp hsuccess).1
  obtain ⟨v, -, -, -, -, -, hle, hbody, -⟩ := haccepted r request hr hsuccess hrequest
  exact ⟨r, request, hr, hrequest, hle.trans (by decide), hbody⟩

end HttpsServer
