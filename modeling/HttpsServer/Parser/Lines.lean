import HttpsServer.Parser

/-!
# HttpsServer.Parser.Lines

What `parse` computes, stated on lines instead of offsets.

`headView` cuts the received bytes into request line, header lines and what
comes after them; it never looks at a limit or at the meaning of a line.
`headerLoop_append` shows that the header loop with its cursor is a fold over
the lines of that view, and `foldlM_addHeader` / `foldlM_addHeader_rejects`
compute the fold: it stores every line and keeps the last `Content-Length`
value, or it rejects, according to the lines alone.
-/

namespace HttpsServer

/-! ## The view -/

/-- Received bytes, cut at their CRLFs: the first line, the lines after it up
to the first empty one, and the way these end. -/
structure HeadView where
  requestLine : Bytes
  fields : List Bytes
  ending : BlockEnd UInt8
  deriving DecidableEq

def headView (data : Bytes) : Option HeadView :=
  (cutPair CR LF data).map fun p => ⟨p.1, (cutBlock CR LF p.2).1, (cutBlock CR LF p.2).2⟩

/-- The number of bytes that `parse` steps over before it takes the body: a
CRLF that stands right behind the head. -/
def extraCrlf (rest : Bytes) : Nat := if crlf <+: rest then 2 else 0

theorem extraCrlf_le_length (rest : Bytes) : extraCrlf rest ≤ rest.length := by
  unfold extraCrlf
  split
  · next h => exact h.length_le
  · exact Nat.zero_le _

/-- The parser compares the next two bytes with a CRLF. -/
theorem take_two_eq_crlf_iff {rest : Bytes} : rest.take 2 = crlf ↔ crlf <+: rest := by
  rw [List.prefix_iff_eq_take]
  exact eq_comm

namespace HeadView

/-- The bytes of the head, with its empty line when that has arrived. -/
def bytes (v : HeadView) : Bytes :=
  v.requestLine ++ crlf ++ joinLines CR LF v.fields ++
    match v.ending with
    | .closed _ => crlf
    | .unclosed _ => []

/-- The bytes behind the head. -/
def rest (v : HeadView) : Bytes :=
  match v.ending with
  | .closed after => after
  | .unclosed rest => rest

/-- The bytes from which `parse` takes the body. -/
def content (v : HeadView) : Bytes := v.rest.drop (extraCrlf v.rest)

end HeadView

/-- The head and what is behind it make up the received bytes. -/
theorem headView_eq_some {data : Bytes} {v : HeadView} :
    headView data = some v ↔
      data = v.bytes ++ v.rest ∧ ¬ crlf <:+: v.requestLine ∧
        (∀ f ∈ v.fields, IsLine CR LF f) ∧ (∀ p, v.ending = .unclosed p → ¬ crlf <:+: p) := by
  obtain ⟨rl, fields, ending⟩ := v
  simp only [headView, Option.map_eq_some_iff, HeadView.mk.injEq, Prod.exists]
  constructor
  · rintro ⟨l, r, hcut, rfl, rfl, rfl⟩
    obtain ⟨rfl, hl⟩ := (cutPair_eq_some CR_ne_LF).mp hcut
    obtain ⟨hlines, hend⟩ := cutBlock_spec CR_ne_LF r
    cases he : (cutBlock CR LF r).2 with
    | closed after =>
        rw [he] at hend
        refine ⟨?_, hl, hlines, nofun⟩
        simp only [HeadView.bytes, HeadView.rest, List.append_assoc, List.cons_append,
          List.nil_append]
        rw [← hend]
    | unclosed p =>
        rw [he] at hend
        refine ⟨?_, hl, hlines, fun q hq => by cases hq; exact hend.2⟩
        simp only [HeadView.bytes, HeadView.rest, List.append_assoc, List.cons_append,
          List.nil_append]
        rw [← hend.1]
  · rintro ⟨rfl, hl, hlines, hend⟩
    cases ending with
    | closed after =>
        refine ⟨rl, joinLines CR LF fields ++ CR :: LF :: after, ?_, rfl, ?_⟩
        · simpa [HeadView.bytes, HeadView.rest] using
            cutPair_append_pair CR_ne_LF hl (joinLines CR LF fields ++ CR :: LF :: after)
        · rw [(cutBlock_closed_iff CR_ne_LF).mpr ⟨rfl, hlines⟩]
          exact ⟨rfl, rfl⟩
    | unclosed p =>
        refine ⟨rl, joinLines CR LF fields ++ p, ?_, rfl, ?_⟩
        · simpa [HeadView.bytes, HeadView.rest] using
            cutPair_append_pair CR_ne_LF hl (joinLines CR LF fields ++ p)
        · rw [(cutBlock_unclosed_iff CR_ne_LF).mpr ⟨rfl, hlines, hend p rfl⟩]
          exact ⟨rfl, rfl⟩

/-- What arrives first of a line with its CRLF and more is cut at that CRLF,
or does not reach its LF. -/
theorem headView_prefix {l following p : Bytes} (hl : ¬ crlf <:+: l)
    (hp : p <+: l ++ crlf ++ following) :
    (p.length ≤ l.length + 1 ∧ headView p = none) ∨
      (l.length + 2 ≤ p.length ∧ ∃ v, headView p = some v ∧ v.requestLine = l) := by
  obtain ⟨t, ht⟩ := hp
  have hwhole : cutPair CR LF (p ++ t) = some (l, following) := by
    rw [ht, List.append_assoc]
    exact cutPair_append_pair CR_ne_LF hl following
  cases hcut : cutPair CR LF p with
  | none =>
      refine .inl ⟨?_, by rw [headView, hcut]; rfl⟩
      by_contra hlt
      -- the CRLF of the line would lie inside `p`
      have hprefix : l ++ crlf <+: p :=
        List.prefix_of_prefix_length_le (ht ▸ List.prefix_append _ _) (List.prefix_append p t)
          (by simp; omega)
      exact cutPair_eq_none.mp hcut
        ((List.suffix_append l crlf).isInfix.trans hprefix.isInfix)
  | some c =>
      have hsame := cutPair_append CR_ne_LF hcut t
      rw [hwhole, Option.some.injEq, Prod.mk.injEq] at hsame
      have hlen := congrArg List.length ((cutPair_eq_some CR_ne_LF).mp hcut).1
      rw [← hsame.1] at hlen
      simp only [List.length_append, List.length_cons] at hlen
      exact .inr ⟨by omega, _, by rw [headView, hcut]; rfl, hsame.1.symm⟩

/-! ## The header loop on lines -/

/-- Slicing from an offset that a decomposition puts there. -/
theorem substr_append (xs ys zs : Bytes) :
    substr (xs ++ (ys ++ zs)) xs.length ys.length = .ok ys := by
  rw [substr, substr?_of_le (by simp)]
  simp [pure, Except.pure]

theorem headerLoop_of_none {limits : ParseLimits} {data : Bytes} {cursor : Nat}
    (h : findFrom crlf data cursor = none) (st : HeaderState) :
    headerLoop limits data cursor st = .ok (cursor, st) := by
  rw [headerLoop]
  split
  · split
    · rfl
    · simp_all
  · rfl

theorem headerLoop_of_some {limits : ParseLimits} {data : Bytes} {cursor e : Nat}
    (h : findFrom crlf data cursor = some e) (st : HeaderState) :
    headerLoop limits data cursor st =
      (substr data cursor (e - cursor)).bind fun line =>
        if line = [] then .ok (e + 2, st)
        else (addHeader limits st line).bind (headerLoop limits data (e + 2)) := by
  have hlt : cursor < data.length := by
    have hb := findFrom_bounds h
    simp only [List.length_cons, List.length_nil] at hb
    omega
  rw [headerLoop, if_pos hlt]
  split
  · simp_all
  · next h' =>
    rw [h] at h'
    cases h'
    rfl

/-- **The header loop is a fold over the lines of the block it stands on**;
it leaves the cursor behind them, and behind the empty line if there is one. -/
theorem headerLoop_append (limits : ParseLimits) (pre xs : Bytes) (st : HeaderState) :
    headerLoop limits (pre ++ xs) pre.length st =
      ((cutBlock CR LF xs).1.foldlM (addHeader limits) st).map fun st' =>
        (pre.length + (joinLines CR LF (cutBlock CR LF xs).1).length +
          match (cutBlock CR LF xs).2 with
          | .closed _ => 2
          | .unclosed _ => 0, st') := by
  induction hn : xs.length using Nat.strongRecOn generalizing pre xs st with
  | _ n ih =>
      have hfind : findFrom crlf (pre ++ xs) pre.length =
          (cutPair CR LF xs).map fun p => p.1.length + pre.length := by
        rw [findFrom, if_pos (by simp), List.drop_left, findSub_pair, Option.map_map]
        rfl
      cases hcut : cutPair CR LF xs with
      | none =>
          rw [headerLoop_of_none (by rw [hfind, hcut]; rfl), cutBlock_of_none hcut]
          rfl
      | some p =>
          obtain ⟨line, after⟩ := p
          obtain ⟨rfl, hline⟩ := (cutPair_eq_some CR_ne_LF).mp hcut
          have hsome : findFrom crlf (pre ++ (line ++ CR :: LF :: after)) pre.length =
              some (line.length + pre.length) := by rw [hfind, hcut]; rfl
          rw [headerLoop_of_some hsome, Nat.add_sub_cancel, substr_append]
          by_cases hne : line = []
          · subst hne
            rw [cutBlock_of_empty hcut]
            simp [Except.bind, Except.map, pure, Except.pure]
          · -- the rest of the loop runs on the rest of the block
            have hlen : (pre ++ (line ++ crlf)).length = line.length + pre.length + 2 := by
              simp; omega
            have hstep := fun st => ih after.length (by rw [← hn]; simp; omega)
              (pre ++ (line ++ crlf)) after st rfl
            rw [hlen] at hstep
            rw [cutBlock_of_line hcut hne]
            simp only [Except.bind, hne, if_false, List.foldlM_cons, bind]
            cases addHeader limits st line with
            | error e => rfl
            | ok st' =>
                have hdata : pre ++ (line ++ CR :: LF :: after) = pre ++ (line ++ crlf) ++ after := by
                  simp
                simp only [hdata, hstep]
                congr 1
                funext st''
                simp
                omega

/-! ## Fields -/

/-- Trimmed name and value of a header line that is in order. -/
def field? (line : Bytes) : Option (Bytes × Bytes) := (parseHeaderLine line).toOption

/-- The trimmed values of the lines called `name` in any letter case, in
their order; `name` is given in lower case. -/
def valuesOf (name : Bytes) (fields : List Bytes) : List Bytes :=
  fields.filterMap fun f =>
    (field? f).bind fun nv => if lowercase nv.1 = name then some nv.2 else none

/-- The header map after `Headers::set` on every line. -/
def storedHeaders (h : Headers) (fields : List Bytes) : Headers :=
  fields.foldl (fun h f => ((field? f).map fun nv => h.set nv.1 nv.2).getD h) h

/-- A computation that ends in an error other than `IncompleteRequest`. -/
def Rejects {β : Type} (x : ParseM β) : Prop :=
  ∃ e, e ≠ .none ∧ e ≠ .incompleteRequest ∧ x = fail e

theorem Rejects.bind {β γ : Type} {x : ParseM β} (h : Rejects x) (f : β → ParseM γ) :
    Rejects (x.bind f) := by
  obtain ⟨e, h1, h2, rfl⟩ := h
  exact ⟨e, h1, h2, rfl⟩

theorem idxOf?_lt {c : UInt8} {s : Bytes} {i : Nat} (h : s.idxOf? c = some i) : i < s.length := by
  rw [List.idxOf?_eq_some_iff] at h
  exact h.1

/-- A header line is in order or it is an `InvalidHeader`. -/
theorem parseHeaderLine_cases (line : Bytes) :
    (∃ nv, parseHeaderLine line = .ok nv) ∨ parseHeaderLine line = fail .invalidHeader := by
  unfold parseHeaderLine
  cases hc : line.idxOf? 58 with
  | none => exact .inr rfl
  | some colon =>
      have hlt := idxOf?_lt hc
      simp only [substr, substr?_of_le (Nat.zero_le _), substr?_of_le (show colon + 1 ≤ line.length by omega),
        bind, Except.bind, pure, Except.pure]
      split
      · exact .inr rfl
      · exact .inl ⟨_, rfl⟩

theorem parseHeaderLine_of_field? {line : Bytes} {nv : Bytes × Bytes} (h : field? line = some nv) :
    parseHeaderLine line = .ok nv := by
  rcases parseHeaderLine_cases line with ⟨nv', h'⟩ | h'
  · simp only [field?, h', Except.toOption, Option.some.injEq] at h
    rw [h', h]
  · simp [field?, h', fail, Except.toOption] at h

/-- The request line is in order or it is rejected. -/
theorem parseRequestLine_cases (line : Bytes) :
    (∃ x, parseRequestLine line = .ok x) ∨ Rejects (parseRequestLine line) := by
  unfold parseRequestLine
  cases hm : line.idxOf? 32 with
  | none => exact .inr ⟨_, by decide, by decide, rfl⟩
  | some methodEnd =>
      cases ht : rfindChar 32 line with
      | none => exact .inr ⟨_, by decide, by decide, rfl⟩
      | some targetEnd =>
          have hm' := idxOf?_lt hm
          have ht' := rfindChar_lt ht
          simp only [substr, substr?_of_le (Nat.zero_le _),
            substr?_of_le (show methodEnd + 1 ≤ line.length by omega),
            substr?_of_le (show targetEnd + 1 ≤ line.length by omega), bind, Except.bind, pure,
            Except.pure]
          split
          · exact .inr ⟨_, by decide, by decide, rfl⟩
          · split
            · exact .inr ⟨_, by decide, by decide, rfl⟩
            · split
              · exact .inr ⟨_, by decide, by decide, rfl⟩
              · split
                · exact .inr ⟨_, by decide, by decide, rfl⟩
                · exact .inl ⟨_, rfl⟩

theorem getElem?_of_idxOf? {c : UInt8} {s : Bytes} {i : Nat} (h : s.idxOf? c = some i) :
    s[i]? = some c := by
  rw [List.idxOf?_eq_some_iff] at h
  obtain ⟨hi, he, -⟩ := h
  rw [List.getElem?_eq_getElem hi]
  exact congrArg some (by simpa using he)

/-- A request line in order is a method name, a target and a version, with
single blanks between them. -/
theorem parseRequestLine_eq_ok {line target : Bytes} {m : HttpMethod} {v : HttpVersion}
    (h : parseRequestLine line = .ok (m, target, v)) :
    ∃ token, line = token ++ 32 :: (target ++ 32 :: v.toString) ∧ methodFromString token = m ∧
      m ≠ .unknown ∧ target.head? = some 47 ∧ v ≠ .unknown := by
  unfold parseRequestLine at h
  cases hm : line.idxOf? 32 with
  | none => simp [hm, fail] at h
  | some methodEnd =>
      cases ht : rfindChar 32 line with
      | none => simp [hm, ht, fail] at h
      | some targetEnd =>
          have hm' := idxOf?_lt hm
          have ht' := rfindChar_lt ht
          have hmethod := append_cons_of_getElem? (getElem?_of_idxOf? hm)
          obtain ⟨b, hb, hblank⟩ := findLastIdx?_eq_some ht
          obtain rfl : b = 32 := by simpa using hblank
          have hfits : (line.drop (targetEnd + 1)).take line.length = line.drop (targetEnd + 1) :=
            List.take_of_length_le (by simp)
          simp only [hm, ht, substr, substr?_of_le (Nat.zero_le _),
            substr?_of_le (show methodEnd + 1 ≤ line.length by omega),
            substr?_of_le (show targetEnd + 1 ≤ line.length by omega), bind, Except.bind, pure,
            Except.pure, fail, List.drop_zero, hfits] at h
          split at h
          · contradiction
          · split at h
            · contradiction
            · next hknown =>
              split at h
              · contradiction
              · next hslash =>
                split at h
                · contradiction
                · next hversion =>
                  cases h
                  have hslash := not_not.mp hslash
                  have hlt : methodEnd < targetEnd := by
                    by_contra hge
                    rw [show targetEnd - methodEnd - 1 = 0 by omega] at hslash
                    simp at hslash
                  have hrest : (line.drop (methodEnd + 1))[targetEnd - methodEnd - 1]? = some 32 := by
                    rw [List.getElem?_drop, ← hb]
                    congr 1
                    omega
                  have hcut := append_cons_of_getElem? hrest
                  rw [List.drop_drop, show methodEnd + 1 + (targetEnd - methodEnd - 1 + 1) =
                    targetEnd + 1 by omega] at hcut
                  have hver := (versionFromString_eq hversion).mp rfl
                  refine ⟨line.take methodEnd, ?_, rfl, hknown, hslash, hversion⟩
                  rw [← hver, ← hcut]
                  exact hmethod

/-- `GET / HTTP/1.1` is as short as a request line can be. -/
theorem le_length_of_parseRequestLine {line : Bytes} {x : HttpMethod × Bytes × HttpVersion}
    (h : parseRequestLine line = .ok x) : 14 ≤ line.length := by
  obtain ⟨m, target, v⟩ := x
  obtain ⟨token, rfl, hmethod, hm, ht, hv⟩ := parseRequestLine_eq_ok h
  have htoken := three_le_of_methodFromString (hmethod ▸ hm)
  have htarget : target ≠ [] := fun he => by simp [he] at ht
  have hpos := List.length_pos_iff.mpr htarget
  have hversion : v.toString.length = 8 := by
    cases v with
    | unknown => contradiction
    | http10 | http11 => rfl
  simp only [List.length_append, List.length_cons, hversion]
  omega

/-! ### The fold over the fields -/

theorem valuesOf_cons (name f : Bytes) (fs : List Bytes) :
    valuesOf name (f :: fs) = valuesOf name [f] ++ valuesOf name fs := by
  simp only [valuesOf, List.filterMap_cons, List.filterMap_nil]
  split <;> rfl

/-- One line that is in order and within the limit. -/
theorem addHeader_ok {limits : ParseLimits} {st : HeaderState} {f : Bytes}
    {nv : Bytes × Bytes} (hf : field? f = some nv)
    (hle : st.headerBytes + (f.length + 2) ≤ limits.maxHeaderSize.toNat) :
    addHeader limits st f = .ok {
      headers := st.headers.set nv.1 nv.2
      headerBytes := st.headerBytes + (f.length + 2)
      contentLengthValue := (valuesOf (ascii "content-length") [f]).getLastD st.contentLengthValue } := by
  have hval : (valuesOf (ascii "content-length") [f]).getLastD st.contentLengthValue =
      if lowercase nv.1 = ascii "content-length" then nv.2 else st.contentLengthValue := by
    simp only [valuesOf, List.filterMap_cons, List.filterMap_nil, hf, Option.bind_some]
    split <;> simp_all
  simp only [addHeader, parseHeaderLine_of_field? hf, bind, Except.bind, pure, Except.pure]
  rw [if_neg (by omega), hval]

/-- One line that is not in order or goes over the limit. -/
theorem addHeader_rejects {limits : ParseLimits} {st : HeaderState} {f : Bytes}
    (h : field? f = none ∨ limits.maxHeaderSize.toNat < st.headerBytes + (f.length + 2)) :
    Rejects (addHeader limits st f) := by
  rcases parseHeaderLine_cases f with ⟨nv, hnv⟩ | hnv
  · have hf : field? f = some nv := by simp [field?, hnv, Except.toOption]
    have hgt : limits.maxHeaderSize.toNat < st.headerBytes + (f.length + 2) := by simpa [hf] using h
    refine ⟨.headerTooLarge, by decide, by decide, ?_⟩
    simp only [addHeader, hnv, bind, Except.bind]
    rw [if_pos (by omega)]
  · exact ⟨.invalidHeader, by decide, by decide, by simp only [addHeader, hnv]; rfl⟩

/-- **Lines in order, within the limit**: the fold stores every line, counts
all their bytes and keeps the last `Content-Length` value. -/
theorem foldlM_addHeader {limits : ParseLimits} {fs : List Bytes} (st : HeaderState)
    (hok : ∀ f ∈ fs, (field? f).isSome)
    (hle : st.headerBytes + (joinLines CR LF fs).length ≤ limits.maxHeaderSize.toNat) :
    fs.foldlM (addHeader limits) st = .ok {
      headers := storedHeaders st.headers fs
      headerBytes := st.headerBytes + (joinLines CR LF fs).length
      contentLengthValue := (valuesOf (ascii "content-length") fs).getLastD st.contentLengthValue } := by
  induction fs generalizing st with
  | nil => rfl
  | cons f fs ih =>
      obtain ⟨nv, hf⟩ := Option.isSome_iff_exists.mp (hok f (by simp))
      simp only [joinLines_cons, List.length_append, List.length_cons] at hle
      rw [List.foldlM_cons, addHeader_ok hf (by omega)]
      have hrest := ih {
        headers := st.headers.set nv.1 nv.2
        headerBytes := st.headerBytes + (f.length + 2)
        contentLengthValue := (valuesOf (ascii "content-length") [f]).getLastD st.contentLengthValue }
        (fun g hg => hok g (by simp [hg])) (by simp only; omega)
      simp only [bind, Except.bind, hrest]
      rw [valuesOf_cons _ f fs]
      congr 2
      · simp [storedHeaders, hf]
      · simp only [joinLines_cons, List.length_append, List.length_cons]; omega
      · cases valuesOf (ascii "content-length") fs <;> simp

/-- **A line out of order, or too many bytes**: the fold rejects. -/
theorem foldlM_addHeader_rejects {limits : ParseLimits} {fs : List Bytes} (st : HeaderState)
    (hst : st.headerBytes ≤ limits.maxHeaderSize.toNat)
    (h : (∃ f ∈ fs, field? f = none) ∨
      limits.maxHeaderSize.toNat < st.headerBytes + (joinLines CR LF fs).length) :
    Rejects (fs.foldlM (addHeader limits) st) := by
  induction fs generalizing st with
  | nil =>
      rcases h with ⟨f, hf, -⟩ | hlt
      · exact absurd hf List.not_mem_nil
      · rw [joinLines_nil, List.length_nil] at hlt
        omega
  | cons f fs ih =>
      rw [List.foldlM_cons]
      by_cases hbad : field? f = none ∨ limits.maxHeaderSize.toNat < st.headerBytes + (f.length + 2)
      · exact (addHeader_rejects hbad).bind _
      · rw [not_or, Nat.not_lt] at hbad
        obtain ⟨nv, hf⟩ := Option.ne_none_iff_exists'.mp hbad.1
        rw [addHeader_ok hf hbad.2]
        refine ih _ hbad.2 ?_
        rcases h with ⟨g, hg, hnone⟩ | hlt
        · rcases List.mem_cons.mp hg with rfl | hg
          · exact absurd hnone hbad.1
          · exact .inl ⟨g, hg, hnone⟩
        · right
          simp only [joinLines_cons, List.length_append, List.length_cons] at hlt ⊢
          omega

/-- What the header map holds after a run of lines: under each name the value
of its last line. -/
theorem get_storedHeaders (h : Headers) (fs : List Bytes) (name : Bytes) :
    (storedHeaders h fs).get name = ((valuesOf (lowercase name) fs).getLast?).or (h.get name) := by
  induction fs generalizing h with
  | nil => simp [storedHeaders, valuesOf]
  | cons f fs ih =>
      have hcons : storedHeaders h (f :: fs) =
          storedHeaders (((field? f).map fun nv => h.set nv.1 nv.2).getD h) fs := rfl
      rw [hcons, ih, valuesOf_cons, List.getLast?_append, Option.or_assoc]
      congr 1
      cases hf : field? f with
      | none => simp [valuesOf, hf]
      | some nv =>
          simp only [valuesOf, List.filterMap_cons, List.filterMap_nil, hf, Option.map_some,
            Option.getD_some, Option.bind_some, Headers.get_set]
          by_cases he : lowercase name = lowercase nv.1
          · simp [he]
          · simp [he, Ne.symm he]

end HttpsServer
