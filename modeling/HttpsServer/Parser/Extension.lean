import HttpsServer.Parser.Verdict

/-!
# HttpsServer.Parser.Extension

What more bytes do to the verdict on the bytes before them.

The lines that a head already has never change (`headView_append`), so a
rejected head stays rejected.  A verdict can change in three situations, and
`parse_append_of_settled` shows that there is no fourth:

* `LineEndSplit` — the request line has exactly the allowed length and the
  data ends between its CR and its LF, which counts the CR against the limit;
* `NextLineOpen` — the header lines so far get a verdict of their own although
  another line of the same head is still arriving;
* `ExtraCrlfSplit` — the body is complete before the two bytes behind the
  empty line are, and these turn out to be a CRLF.
-/

namespace HttpsServer

/-! ## The view of more bytes -/

namespace HeadView

/-- The view after `xs` has arrived without adding a line to the head. -/
def extend (v : HeadView) (xs : Bytes) : HeadView where
  requestLine := v.requestLine
  fields := v.fields
  ending :=
    match v.ending with
    | .closed after => .closed (after ++ xs)
    | .unclosed rest => .unclosed (rest ++ xs)

@[simp] theorem bytes_extend (v : HeadView) (xs : Bytes) : (v.extend xs).bytes = v.bytes := by
  unfold extend bytes
  cases v.ending <;> rfl

@[simp] theorem rest_extend (v : HeadView) (xs : Bytes) : (v.extend xs).rest = v.rest ++ xs := by
  unfold extend rest
  cases v.ending <;> rfl

@[simp] theorem lengthValue_extend (v : HeadView) (xs : Bytes) :
    (v.extend xs).lengthValue = v.lengthValue := rfl

@[simp] theorem bodySize_extend (v : HeadView) (xs : Bytes) :
    (v.extend xs).bodySize = v.bodySize := rfl

theorem valid_extend {limits : ParseLimits} {v : HeadView} (h : v.Valid limits) (xs : Bytes) :
    (v.extend xs).Valid limits := ⟨h.requestLine_le, h.requestLine_ok, h.fields_ok, h.fields_le⟩

/-- Stepping over the same bytes, an extended view accepts the same request. -/
theorem accepted_extend {v : HeadView} {xs : Bytes}
    (hskip : extraCrlf (v.rest ++ xs) = extraCrlf v.rest) (hsize : v.bodySize ≤ v.content.length) :
    (v.extend xs).accepted = v.accepted := by
  have hcontent : (v.extend xs).content = v.content ++ xs := by
    rw [content, content, rest_extend, hskip, List.drop_append_of_le_length (extraCrlf_le_length _)]
  have hreq : (v.extend xs).request = v.request := by
    unfold request
    rw [hcontent, bodySize_extend, List.take_append_of_le_length hsize]
    rfl
  unfold accepted
  rw [hreq, bytes_extend, rest_extend, hskip, bodySize_extend]

theorem content_extend_length (v : HeadView) (xs : Bytes) :
    (v.extend xs).content.length + extraCrlf (v.rest ++ xs) = v.rest.length + xs.length := by
  have := (v.extend xs).length_content
  rw [rest_extend, List.length_append] at this
  omega

/-- A refused `Content-Length` value is refused whatever follows. -/
theorem not_ready_extend {limits : ParseLimits} {v : HeadView} (hready : ¬ v.BodyReady limits)
    (hpending : ¬ v.BodyPending limits) (xs : Bytes) :
    ¬ (v.extend xs).BodyReady limits ∧ ¬ (v.extend xs).BodyPending limits := by
  have hrefused : ∀ n, stoull v.lengthValue = some n → ¬ n ≤ limits.maxBodySize.toNat := by
    intro n hn hmax
    have hne : v.lengthValue ≠ [] := fun he => hready (.inl he)
    by_cases hle : n ≤ v.content.length
    · exact hready (.inr ⟨n, hn, hmax, hle⟩)
    · exact hpending ⟨hne, n, hn, hmax, by omega⟩
  constructor
  · rintro (he | ⟨n, hn, hmax, -⟩)
    · exact hready (.inl he)
    · exact hrefused n hn hmax
  · rintro ⟨-, n, hn, hmax, -⟩
    exact hrefused n hn hmax

end HeadView

/-- A head keeps its request line and its header lines; more of them may
follow. -/
theorem headView_append {data : Bytes} {v : HeadView} (h : headView data = some v) (xs : Bytes) :
    ∃ w, headView (data ++ xs) = some w ∧ w.requestLine = v.requestLine ∧ v.fields <+: w.fields := by
  obtain ⟨⟨line, after⟩, hcut, rfl⟩ := Option.map_eq_some_iff.mp h
  have hcut' := cutPair_append CR_ne_LF hcut xs
  refine ⟨_, Option.map_eq_some_iff.mpr ⟨_, hcut', rfl⟩, rfl, ?_⟩
  show (cutBlock CR LF after).1 <+: (cutBlock CR LF (after ++ xs)).1
  cases he : (cutBlock CR LF after).2 with
  | closed rest =>
      rw [cutBlock_closed_append CR_ne_LF (Prod.ext rfl he)]
  | unclosed rest =>
      rw [cutBlock_unclosed_append CR_ne_LF (Prod.ext rfl he)]
      exact List.prefix_append _ _

/-- A finished head, or one whose last piece does not become a line, is
extended. -/
theorem headView_extend {data : Bytes} {v : HeadView} (h : headView data = some v) {xs : Bytes}
    (hopen : ∀ p, v.ending = .unclosed p → ¬ crlf <:+: p ++ xs) :
    headView (data ++ xs) = some (v.extend xs) := by
  obtain ⟨hdata, hline, hfields, -⟩ := headView_eq_some.mp h
  refine headView_eq_some.mpr ⟨by simp [hdata], hline, hfields, ?_⟩
  intro p hp
  cases he : v.ending with
  | closed after => simp [HeadView.extend, he] at hp
  | unclosed q =>
      simp only [HeadView.extend, he, BlockEnd.unclosed.injEq] at hp
      rw [← hp]
      exact hopen q he

/-- A head out of order stays out of order. -/
theorem not_valid_append {limits : ParseLimits} {v w : HeadView} (hv : ¬ v.Valid limits)
    (hline : w.requestLine = v.requestLine) (hfields : v.fields <+: w.fields) :
    ¬ w.Valid limits := by
  intro hw
  refine hv ⟨hline ▸ hw.requestLine_le, hline ▸ hw.requestLine_ok, ?_, ?_⟩
  · exact fun f hf => hw.fields_ok f (hfields.subset hf)
  · obtain ⟨more, hmore⟩ := hfields
    have := hw.fields_le
    rw [← hmore, joinLines_append, List.length_append] at this
    omega

/-! ## Verdicts that depend on the arrival -/

/-- Request line and CR have arrived, the LF has not, and the line is as long
as the limit allows. -/
def LineEndSplit (limits : ParseLimits) (data xs : Bytes) : Prop :=
  headView data = none ∧ data.length = limits.maxRequestLineSize.toNat + 1 ∧
    data.getLast? = some CR ∧ xs.head? = some LF

/-- A head in order without its empty line, whose next line is still to come,
is not left waiting for it. -/
def NextLineOpen (limits : ParseLimits) (data xs : Bytes) : Prop :=
  ∃ v p, headView data = some v ∧ v.ending = .unclosed p ∧ v.Valid limits ∧
    ¬ v.BodyPending limits ∧ crlf <:+: p ++ xs

/-- The body is complete, fewer than two bytes stand behind the empty line,
and with the bytes still to come they begin with a CRLF. -/
def ExtraCrlfSplit (limits : ParseLimits) (data xs : Bytes) : Prop :=
  ∃ v after, headView data = some v ∧ v.ending = .closed after ∧ v.Valid limits ∧
    v.BodyReady limits ∧ after.length < 2 ∧ crlf <+: after ++ xs

/-- The verdict on `data` is given before the bytes it depends on are there. -/
def ArrivalDependent (limits : ParseLimits) (data xs : Bytes) : Prop :=
  LineEndSplit limits data xs ∨ NextLineOpen limits data xs ∨ ExtraCrlfSplit limits data xs

/-- Nothing depends on bytes that do not come. -/
theorem not_arrivalDependent_nil (limits : ParseLimits) (data : Bytes) :
    ¬ ArrivalDependent limits data [] := by
  rintro (⟨-, -, -, hxs⟩ | ⟨v, p, hview, hp, -, -, hin⟩ | ⟨v, after, -, -, -, -, hlt, hpre⟩)
  · contradiction
  · rw [List.append_nil] at hin
    exact (headView_eq_some.mp hview).2.2.2 p hp hin
  · have := hpre.length_le
    simp only [List.length_cons, List.length_nil, List.append_nil] at this
    omega

/-- Without a CRLF only a line at the limit depends on what comes. -/
theorem not_arrivalDependent_of_short {limits : ParseLimits} {data : Bytes}
    (hnone : headView data = none) (hle : data.length ≤ limits.maxRequestLineSize.toNat)
    (xs : Bytes) : ¬ ArrivalDependent limits data xs := by
  rintro (⟨-, hlen, -⟩ | ⟨v, p, hview, -⟩ | ⟨v, after, hview, -⟩)
  · omega
  · rw [hnone] at hview
    contradiction
  · rw [hnone] at hview
    contradiction

/-- A first line over the limit before its CRLF is there is over the limit
with it. -/
theorem requestLine_gt_of_append {limits : ParseLimits} {data xs : Bytes} {w : HeadView}
    (hnone : headView data = none) (hgt : limits.maxRequestLineSize.toNat < data.length)
    (hsplit : ¬ LineEndSplit limits data xs) (hw : headView (data ++ xs) = some w) :
    limits.maxRequestLineSize.toNat < w.requestLine.length := by
  obtain ⟨⟨line, after⟩, hcut, rfl⟩ := Option.map_eq_some_iff.mp hw
  obtain ⟨hdata, hline⟩ := (cutPair_eq_some CR_ne_LF).mp hcut
  show limits.maxRequestLineSize.toNat < line.length
  by_contra hle
  rcases headView_prefix hline ⟨xs, by simpa using hdata⟩ with ⟨hlen, -⟩ | ⟨-, v, hv, -⟩
  · -- the data ends behind the CR of the line
    have hsize : data.length = (line ++ [CR]).length := by
      simp only [List.length_append, List.length_cons, List.length_nil]
      omega
    obtain ⟨rfl, rfl⟩ := List.append_inj (hdata.trans (List.append_cons line CR (LF :: after))) hsize
    refine hsplit ⟨hnone, ?_, by simp, rfl⟩
    simp only [List.length_append, List.length_cons, List.length_nil] at hgt ⊢
    omega
  · rw [hnone] at hv
    contradiction

/-- Unless the two bytes behind the head are still missing, the step over a
CRLF is the same with more bytes. -/
theorem extraCrlf_append {rest xs : Bytes} (h : ¬ (rest.length < 2 ∧ crlf <+: rest ++ xs)) :
    extraCrlf (rest ++ xs) = extraCrlf rest := by
  have hiff : crlf <+: rest ++ xs ↔ crlf <+: rest := by
    constructor
    · intro hpre
      have hlen : ¬ rest.length < 2 := fun hlt => h ⟨hlt, hpre⟩
      exact List.prefix_of_prefix_length_le hpre (List.prefix_append rest xs) (Nat.le_of_not_lt hlen)
    · exact fun hpre => hpre.trans (List.prefix_append rest xs)
  simp [extraCrlf, hiff]

/-- Under a valid head whose view is extended, the verdict carries over. -/
theorem parse_extend {limits : ParseLimits} {data xs : Bytes} {v : HeadView}
    (hview : headView data = some v) (hv : v.Valid limits)
    (hview' : headView (data ++ xs) = some (v.extend xs))
    (hskip : v.BodyReady limits → extraCrlf (v.rest ++ xs) = extraCrlf v.rest) :
    NeedsMore limits data ∨
      (∃ r, parse limits data = some r ∧ r.success = true ∧ parse limits (data ++ xs) = some r) ∨
      (∃ e e', e ≠ .none ∧ e ≠ .incompleteRequest ∧ e' ≠ .none ∧ e' ≠ .incompleteRequest ∧
        parse limits data = some { error := e } ∧ parse limits (data ++ xs) = some { error := e' }) := by
  have hv' := HeadView.valid_extend hv xs
  by_cases hready : v.BodyReady limits
  · refine .inr (.inl ⟨v.accepted, ?_⟩)
    obtain ⟨hparse, hs⟩ := parse_accepts_iff.mpr ⟨v, hview, hv, hready, rfl⟩
    refine ⟨hparse, hs, ?_⟩
    have hlen := v.content_extend_length xs
    have hlen' := v.length_content
    have hsk := hskip hready
    have hready' : (v.extend xs).BodyReady limits := by
      rcases hready with he | ⟨n, hn, hmax, hle⟩
      · exact .inl he
      · exact .inr ⟨n, hn, hmax, by omega⟩
    obtain ⟨hparse', -⟩ := parse_accepts_iff.mpr ⟨_, hview', hv', hready', rfl⟩
    rw [hparse', HeadView.accepted_extend hsk hready.bodySize_le.1]
  · by_cases hpending : v.BodyPending limits
    · exact .inl (.inr ⟨v, hview, hv, hpending⟩)
    · obtain ⟨hready', hpending'⟩ := HeadView.not_ready_extend hready hpending xs
      obtain ⟨e, h1, h2, he⟩ := parse_of_rejects (parseM_of_refused hview hv hready hpending)
      obtain ⟨e', h1', h2', he'⟩ :=
        parse_of_rejects (parseM_of_refused hview' hv' hready' hpending')
      exact .inr (.inr ⟨e, e', h1, h2, h1', h2', he, he'⟩)

/-- **There is no fourth situation**: a verdict that does not depend on the
arrival is also the verdict on more bytes, unless it asks for them. -/
theorem parse_append_of_settled {limits : ParseLimits} {data xs : Bytes}
    (h : ¬ ArrivalDependent limits data xs) :
    NeedsMore limits data ∨
      (∃ r, parse limits data = some r ∧ r.success = true ∧ parse limits (data ++ xs) = some r) ∨
      (∃ e e', e ≠ .none ∧ e ≠ .incompleteRequest ∧ e' ≠ .none ∧ e' ≠ .incompleteRequest ∧
        parse limits data = some { error := e } ∧ parse limits (data ++ xs) = some { error := e' }) := by
  simp only [ArrivalDependent, not_or] at h
  obtain ⟨hline, hnext, hextra⟩ := h
  cases hview : headView data with
  | none =>
      by_cases hle : data.length ≤ limits.maxRequestLineSize.toNat
      · exact .inl (.inl ⟨hview, hle⟩)
      · have hrej : Rejects (parseM limits data) := by
          rw [parseM_of_headView_none hview, if_pos (by omega)]
          exact ⟨_, by decide, by decide, rfl⟩
        have hrej' : Rejects (parseM limits (data ++ xs)) := by
          cases hview' : headView (data ++ xs) with
          | none =>
              rw [parseM_of_headView_none hview', if_pos (by rw [List.length_append]; omega)]
              exact ⟨_, by decide, by decide, rfl⟩
          | some w =>
              have hgt := requestLine_gt_of_append hview (by omega) hline hview'
              exact parseM_of_not_valid hview' fun hw => by
                have := hw.requestLine_le
                omega
        obtain ⟨e, h1, h2, he⟩ := parse_of_rejects hrej
        obtain ⟨e', h1', h2', he'⟩ := parse_of_rejects hrej'
        exact .inr (.inr ⟨e, e', h1, h2, h1', h2', he, he'⟩)
  | some v =>
      by_cases hv : v.Valid limits
      · by_cases hpending : v.BodyPending limits
        · exact .inl (.inr ⟨v, hview, hv, hpending⟩)
        · have hopen : ∀ p, v.ending = .unclosed p → ¬ crlf <:+: p ++ xs :=
            fun p hp hin => hnext ⟨v, p, hview, hp, hv, hpending, hin⟩
          refine parse_extend hview hv (headView_extend hview hopen) fun hready => ?_
          refine extraCrlf_append fun ⟨hlt, hpre⟩ => ?_
          cases he : v.ending with
          | closed after =>
              simp only [HeadView.rest, he] at hlt hpre
              exact hextra ⟨v, after, hview, he, hv, hready, hlt, hpre⟩
          | unclosed p =>
              simp only [HeadView.rest, he] at hpre
              exact hopen p he hpre.isInfix
      · obtain ⟨w, hview', hwl, hwf⟩ := headView_append hview xs
        obtain ⟨e, h1, h2, he⟩ := parse_of_rejects (parseM_of_not_valid hview hv)
        obtain ⟨e', h1', h2', he'⟩ :=
          parse_of_rejects (parseM_of_not_valid hview' (not_valid_append hv hwl hwf))
        exact .inr (.inr ⟨e, e', h1, h2, h1', h2', he, he'⟩)

end HttpsServer
