import HttpsServer.Parser.Verdict

/-!
# HttpsServer.Parser.LineLimit

The limit on the request line, while the line is still arriving.

`parse` compares the limit with the size of everything received as long as
there is no CRLF in it, and with the position of the CRLF afterwards.  The
first of the two counts a CR that has arrived without its LF, so it refuses a
line of exactly the allowed length that the second lets pass, and no other
(`lineLimit_iff`).
-/

namespace HttpsServer

/-! ## The errors of the stages -/

/-- `x` stops, if it stops, with one of `errors`. -/
def StopsWith {β : Type} (errors : List ParseError) (x : ParseM β) : Prop :=
  ∀ r, x = .error (.failed r) → r.error ∈ errors

theorem stopsWith_pure {β : Type} (errors : List ParseError) (b : β) :
    StopsWith errors (pure b : ParseM β) := nofun

theorem stopsWith_fail {β : Type} {errors : List ParseError} {e : ParseError} (h : e ∈ errors) :
    StopsWith errors (fail e : ParseM β) := by
  intro r hr
  cases hr
  exact h

theorem stopsWith_substr (errors : List ParseError) (s : Bytes) (pos n : Nat) :
    StopsWith errors (substr s pos n) := by
  intro r hr
  unfold substr at hr
  split at hr
  · exact stopsWith_pure errors _ r hr
  · simp at hr

theorem StopsWith.mono {β : Type} {errors errors' : List ParseError} {x : ParseM β}
    (h : StopsWith errors x) (hsub : errors ⊆ errors') : StopsWith errors' x :=
  fun r hr => hsub (h r hr)

theorem StopsWith.bind {β γ : Type} {errors : List ParseError} {x : ParseM β} {f : β → ParseM γ}
    (hx : StopsWith errors x) (hf : ∀ b, StopsWith errors (f b)) : StopsWith errors (x >>= f) := by
  intro r hr
  cases x with
  | error e =>
      simp only [Bind.bind, Except.bind, Except.error.injEq] at hr
      exact hx r (congrArg Except.error hr)
  | ok b => exact hf b r hr

theorem StopsWith.foldlM {β σ : Type} {errors : List ParseError} {f : σ → β → ParseM σ}
    (hf : ∀ s b, StopsWith errors (f s b)) (bs : List β) (s : σ) :
    StopsWith errors (bs.foldlM f s) := by
  induction bs generalizing s with
  | nil => exact stopsWith_pure errors s
  | cons b bs ih =>
      rw [List.foldlM_cons]
      exact (hf s b).bind ih

theorem parseRequestLine_stopsWith (line : Bytes) :
    StopsWith [.invalidRequestLine, .invalidMethod, .invalidTarget, .invalidVersion]
      (parseRequestLine line) := by
  unfold parseRequestLine
  split
  · split
    · exact stopsWith_fail (by decide)
    · refine (stopsWith_substr _ _ _ _).bind fun _ => (stopsWith_substr _ _ _ _).bind fun _ =>
        (stopsWith_substr _ _ _ _).bind fun _ => ?_
      dsimp only
      split
      · exact stopsWith_fail (by decide)
      · split
        · exact stopsWith_fail (by decide)
        · split
          · exact stopsWith_fail (by decide)
          · exact stopsWith_pure _ _
  · exact stopsWith_fail (by decide)

theorem parseHeaderLine_stopsWith (line : Bytes) :
    StopsWith [.invalidHeader, .headerTooLarge] (parseHeaderLine line) := by
  unfold parseHeaderLine
  split
  · exact stopsWith_fail (by decide)
  · refine (stopsWith_substr _ _ _ _).bind fun _ => (stopsWith_substr _ _ _ _).bind fun _ => ?_
    split
    · exact stopsWith_fail (by decide)
    · exact stopsWith_pure _ _

theorem addHeader_stopsWith (limits : ParseLimits) (st : HeaderState) (line : Bytes) :
    StopsWith [.invalidHeader, .headerTooLarge] (addHeader limits st line) := by
  refine (parseHeaderLine_stopsWith line).bind fun nv => ?_
  dsimp only
  split
  · exact stopsWith_fail (by decide)
  · exact stopsWith_pure _ _

theorem frameBody_stopsWith (limits : ParseLimits) {pre : Bytes} (hpre : pre ≠ []) (rest : Bytes)
    (request : HttpRequest) (st : HeaderState) :
    StopsWith [.invalidContentLength, .bodyTooLarge, .incompleteRequest]
      (frameBody limits (pre ++ rest) request pre.length st) := by
  rw [frameBody_append limits hpre]
  split
  · exact stopsWith_pure _ _
  · split
    · exact stopsWith_fail (by decide)
    · split
      · exact stopsWith_fail (by decide)
      · split
        · exact stopsWith_fail (by decide)
        · exact stopsWith_pure _ _

/-- Behind a request line within the limit come the errors of the stages. -/
theorem parseM_stopsWith {limits : ParseLimits} {data : Bytes} {v : HeadView}
    (hview : headView data = some v)
    (hle : v.requestLine.length ≤ limits.maxRequestLineSize.toNat) :
    StopsWith [.invalidRequestLine, .invalidMethod, .invalidTarget, .invalidVersion,
      .invalidHeader, .headerTooLarge, .invalidContentLength, .bodyTooLarge, .incompleteRequest]
      (parseM limits data) := by
  rw [parseM_of_headView_some hview, if_neg (by omega)]
  refine ((parseRequestLine_stopsWith _).mono (by simp)).bind fun x => ?_
  refine (StopsWith.foldlM (fun st f => (addHeader_stopsWith limits st f).mono (by simp)) _ _).bind
    fun st => ?_
  exact (frameBody_stopsWith limits v.bytes_ne_nil _ _ _).mono (by simp)

/-- A result that is not an early exit has no error. -/
theorem error_of_parseM_eq_ok {limits : ParseLimits} {data : Bytes} {r : ParseResult}
    (h : parseM limits data = .ok r) : r.error = .none := by
  cases hview : headView data with
  | none =>
      rw [parseM_of_headView_none hview] at h
      split at h <;> contradiction
  | some v =>
      by_cases hv : v.Valid limits
      · rw [parseM_of_valid hview hv] at h
        split at h
        · cases h
          rfl
        · split at h
          · contradiction
          · split at h
            · contradiction
            · split at h
              · contradiction
              · cases h
                rfl
      · obtain ⟨e, -, -, he⟩ := parseM_of_not_valid hview hv
        rw [he] at h
        contradiction

/-! ## The limit -/

/-- `parse` reports `RequestLineTooLarge`. -/
def RequestLineTooLarge (limits : ParseLimits) (data : Bytes) : Prop :=
  ∃ r, parse limits data = some r ∧ r.error = .requestLineTooLarge

theorem requestLineTooLarge_of_fail {limits : ParseLimits} {data : Bytes}
    (h : parseM limits data = fail .requestLineTooLarge) : RequestLineTooLarge limits data :=
  ⟨{ error := .requestLineTooLarge }, by rw [parse_eq, h]; rfl, rfl⟩

theorem StopsWith.not_requestLineTooLarge {limits : ParseLimits} {data : Bytes}
    {errors : List ParseError} (h : StopsWith errors (parseM limits data))
    (hmem : .requestLineTooLarge ∉ errors) : ¬ RequestLineTooLarge limits data := by
  rintro ⟨r, hr, he⟩
  rw [parse_eq] at hr
  split at hr
  · next hok =>
    cases hr
    rw [error_of_parseM_eq_ok hok] at he
    contradiction
  · next hfailed =>
    cases hr
    exact hmem (he ▸ h r hfailed)
  · contradiction

/-- The two comparisons of the code: the size of the data before there is a
CRLF, the length of the line afterwards. -/
theorem requestLineTooLarge_iff (limits : ParseLimits) (data : Bytes) :
    RequestLineTooLarge limits data ↔
      (headView data = none ∧ limits.maxRequestLineSize.toNat < data.length) ∨
        ∃ v, headView data = some v ∧ limits.maxRequestLineSize.toNat < v.requestLine.length := by
  cases hview : headView data with
  | none =>
      have hM := parseM_of_headView_none hview limits
      by_cases hlt : data.length > limits.maxRequestLineSize.toNat
      · rw [if_pos hlt] at hM
        exact iff_of_true (requestLineTooLarge_of_fail hM) (.inl ⟨rfl, hlt⟩)
      · rw [if_neg hlt] at hM
        have herrors : StopsWith [.incompleteRequest] (parseM limits data) := by
          rw [hM]
          exact stopsWith_fail (by decide)
        refine iff_of_false (herrors.not_requestLineTooLarge (by decide)) ?_
        rintro (⟨-, h⟩ | ⟨v, h, -⟩)
        · exact hlt h
        · contradiction
  | some v =>
      by_cases hlt : v.requestLine.length > limits.maxRequestLineSize.toNat
      · have hM := parseM_of_headView_some hview limits
        rw [if_pos hlt] at hM
        exact iff_of_true (requestLineTooLarge_of_fail hM) (.inr ⟨v, rfl, hlt⟩)
      · have herrors := parseM_stopsWith hview (Nat.not_lt.mp hlt)
        refine iff_of_false (herrors.not_requestLineTooLarge (by decide)) ?_
        rintro (⟨h, -⟩ | ⟨w, hw, h⟩)
        · contradiction
        · cases hw
          exact hlt h

/-- **The limit while the line arrives**: the two comparisons agree on a line
at every point of its arrival, unless it is exactly as long as is allowed. -/
theorem lineLimit_iff {limits : ParseLimits} {l following : Bytes} (hl : ¬ crlf <:+: l) :
    ((l.length ≤ limits.maxRequestLineSize.toNat → ∀ p, p ≠ [] → p <+: l ++ crlf ++ following →
        ¬ RequestLineTooLarge limits p) ∧
      (limits.maxRequestLineSize.toNat < l.length → ∀ p, l ++ crlf <+: p →
        p <+: l ++ crlf ++ following → RequestLineTooLarge limits p)) ↔
      l.length ≠ limits.maxRequestLineSize.toNat := by
  constructor
  · rintro ⟨hshort, -⟩ heq
    have hp : l ++ [CR] <+: l ++ crlf ++ following := ⟨LF :: following, by simp⟩
    refine hshort heq.le (l ++ [CR]) (by simp) hp ?_
    rcases headView_prefix hl hp with ⟨-, hnone⟩ | ⟨hlen, -⟩
    · exact (requestLineTooLarge_iff _ _).mpr (.inl ⟨hnone, by simp; omega⟩)
    · simp at hlen
  · intro hne
    refine ⟨fun hle p _ hp => ?_, fun hlt p hline hp => ?_⟩
    · rw [requestLineTooLarge_iff]
      rcases headView_prefix hl hp with ⟨hlen, hnone⟩ | ⟨-, v, hv, hrl⟩
      · rintro (⟨-, h⟩ | ⟨v, hv, -⟩)
        · omega
        · rw [hnone] at hv
          contradiction
      · rintro (⟨hnone, -⟩ | ⟨w, hw, h⟩)
        · rw [hnone] at hv
          contradiction
        · rw [hv] at hw
          cases hw
          rw [hrl] at h
          omega
    · have hlen := hline.length_le
      simp only [List.length_append, List.length_cons, List.length_nil] at hlen
      rcases headView_prefix hl hp with ⟨hshort, -⟩ | ⟨-, v, hv, hrl⟩
      · omega
      · exact (requestLineTooLarge_iff _ _).mpr (.inr ⟨v, hv, by rw [hrl]; exact hlt⟩)

/-- Below the limit the CR without its LF does no harm. -/
theorem lineLimit_iff_get : ¬ RequestLineTooLarge {} (ascii "GET / HTTP/1.1\r") :=
  ((@lineLimit_iff {} (ascii "GET / HTTP/1.1") crlf (by decide)).mpr (by decide)).1 (by decide) _
    (by decide) ⟨ascii "\n\r\n", by decide⟩

/-- `GET / HTTP/1.1` is allowed 14 bytes, and refused before its LF. -/
theorem not_lineLimit_get :
    ¬ ∀ (limits : ParseLimits) (l following : Bytes), ¬ crlf <:+: l →
      (l.length ≤ limits.maxRequestLineSize.toNat → ∀ p, p ≠ [] → p <+: l ++ crlf ++ following →
        ¬ RequestLineTooLarge limits p) ∧
      (limits.maxRequestLineSize.toNat < l.length → ∀ p, l ++ crlf <+: p →
        p <+: l ++ crlf ++ following → RequestLineTooLarge limits p) := by
  intro h
  refine (h { maxRequestLineSize := 14 } (ascii "GET / HTTP/1.1") crlf (by decide)).1 (by decide)
    (ascii "GET / HTTP/1.1\r") (by decide) ⟨ascii "\n\r\n", by decide⟩ ?_
  exact ⟨{ error := .requestLineTooLarge }, by decide +kernel, rfl⟩

end HttpsServer
