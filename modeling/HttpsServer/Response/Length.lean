import HttpsServer.Response.Head
import HttpsServer.Parser.Message

/-!
# HttpsServer.Response.Length

Does the Content-Length line tell the truth?

The factories store the size of the body they are given; `set_body` replaces
the body and leaves the stored size alone.  A response without a stored size
is measured by `serialize`.  So the line is right exactly when the size stored
by the factory, if there is one, is the size of what stands behind the empty
line (`tellsLength_iff`).
-/

namespace HttpsServer

/-- The Content-Length line of a response states the number of bytes behind
its empty line. -/
def TellsLength (data : Bytes) : Prop :=
  ∃ v, headView data = some v ∧
    (valuesOf (ascii "content-length") v.fields).head? = some (toDecimal v.rest.length)

/-! ## How a response is built -/

/-- The constructors and the factories. -/
inductive ResponseOrigin where
  | default
  | ofStatus (status : StatusCode)
  | ok (body : Bytes)
  | created (body : Bytes)
  | noContent
  | badRequest (body : Bytes)
  | notFound (body : Bytes)
  | methodNotAllowed (body : Bytes)
  | internalServerError (body : Bytes)

def ResponseOrigin.make : ResponseOrigin → HttpResponse
  | .default => {}
  | .ofStatus status => .ofStatus status
  | .ok body => .ok body
  | .created body => .created body
  | .noContent => .noContent
  | .badRequest body => .badRequest body
  | .notFound body => .notFound body
  | .methodNotAllowed body => .methodNotAllowed body
  | .internalServerError body => .internalServerError body

/-- The size that the factory stores. -/
def ResponseOrigin.storedLength : ResponseOrigin → Option Nat
  | .default => none
  | .ofStatus _ => none
  | .ok body => some body.length
  | .created body => some body.length
  | .noContent => some 0
  | .badRequest body => some body.length
  | .notFound body => some body.length
  | .methodNotAllowed body => some body.length
  | .internalServerError body => some body.length

/-- A call of a setter; `set_header` under any name but Content-Length. -/
inductive ResponseSetter where
  | setStatus (status : StatusCode)
  | setBody (body : Bytes)
  | setContentType (contentType : Bytes)
  | setKeepAlive (keepAlive : Bool)
  | setHeader (name value : Bytes) (h : lowercase name ≠ ascii "content-length")

def ResponseSetter.apply (r : HttpResponse) : ResponseSetter → HttpResponse
  | .setStatus status => r.setStatus status
  | .setBody body => r.setBody body
  | .setContentType contentType => r.setContentType contentType
  | .setKeepAlive keepAlive => r.setKeepAlive keepAlive
  | .setHeader name value _ => r.setHeader name value

/-- The response after a run of setter calls. -/
def ResponseOrigin.build (o : ResponseOrigin) (ms : List ResponseSetter) : HttpResponse :=
  ms.foldl ResponseSetter.apply o.make

/-! ## The stored size -/

/-- No setter touches the stored size. -/
theorem get_apply (r : HttpResponse) (m : ResponseSetter) :
    (m.apply r).headers.get (ascii "Content-Length") =
      r.headers.get (ascii "Content-Length") := by
  cases m with
  | setStatus | setBody | setKeepAlive => rfl
  | setContentType contentType =>
      rw [ResponseSetter.apply, HttpResponse.setContentType, Headers.get_set, if_neg (by decide)]
  | setHeader name value h =>
      rw [ResponseSetter.apply, HttpResponse.setHeader, Headers.get_set, if_neg]
      exact fun he => h he.symm

theorem get_withBody (status : StatusCode) (body : Bytes) :
    (HttpResponse.withBody status body).headers.get (ascii "Content-Length") =
      some (toDecimal body.length) := by
  rw [HttpResponse.withBody, HttpResponse.setContentLength, Headers.get_set, if_pos rfl]

theorem get_make (o : ResponseOrigin) :
    o.make.headers.get (ascii "Content-Length") = o.storedLength.map toDecimal := by
  cases o with
  | default => rfl
  | ofStatus status =>
      show (Headers.set {} (ascii "Content-Type") _).get (ascii "Content-Length") = none
      rw [Headers.get_set, if_neg (by decide)]
      rfl
  | _ => exact get_withBody _ _

/-- What is stored stays what the factory stored. -/
theorem get_build (o : ResponseOrigin) (ms : List ResponseSetter) :
    (o.build ms).headers.get (ascii "Content-Length") = o.storedLength.map toDecimal := by
  have hfold : ∀ r : HttpResponse,
      (ms.foldl ResponseSetter.apply r).headers.get (ascii "Content-Length") =
        r.headers.get (ascii "Content-Length") := by
    induction ms with
    | nil => exact fun _ => rfl
    | cons m ms ih => exact fun r => (ih _).trans (get_apply r m)
  exact (hfold o.make).trans (get_make o)

/-- The length that `serialize` writes: the stored one, or that of the body. -/
theorem lengthText_build (o : ResponseOrigin) (ms : List ResponseSetter) :
    (o.build ms).lengthText =
      toDecimal (o.storedLength.getD (o.build ms).body.length) := by
  rw [HttpResponse.lengthText_eq, get_build]
  cases o.storedLength <;> rfl

/-! ## The line read -/

/-- A number in the Content-Length line is what a reader finds first. -/
theorem head?_valuesOf_shownLines {r : HttpResponse} (h : IsDecimal r.lengthText)
    (all : List (Bytes × Bytes)) :
    (valuesOf (ascii "content-length") (r.shownLines all)).head? = some r.lengthText := by
  have hline : HttpResponse.writeField (ascii "Content-Length", r.lengthText) =
      (lengthLine r.lengthText h).bytes := by
    simp [HttpResponse.writeField, HeaderLine.bytes, lengthLine, ascii]
  obtain ⟨rest, hrest⟩ : ∃ rest, r.fieldLines all = (lengthLine r.lengthText h).bytes :: rest :=
    ⟨_, by rw [HttpResponse.fieldLines, HttpResponse.fields, List.map_cons, hline]⟩
  have hshown : ∃ more, r.shownLines all = (lengthLine r.lengthText h).bytes :: more := by
    have hlines : ∀ l ∈ [(lengthLine r.lengthText h).bytes], IsLine CR LF l :=
      List.forall_mem_singleton.mpr (lengthLine r.lengthText h).isLine_bytes
    have hcut := cutBlock_joinLines CR_ne_LF hlines (joinLines CR LF rest ++ crlf)
    rw [HttpResponse.shownLines, hrest]
    simp only [joinLines_cons, joinLines_nil, List.append_assoc, List.cons_append,
      List.nil_append] at hcut ⊢
    rw [hcut]
    exact ⟨_, rfl⟩
  obtain ⟨more, hmore⟩ := hshown
  have hvalue : valuesOf (ascii "content-length") [(lengthLine r.lengthText h).bytes] =
      [r.lengthText] := by
    have := valuesOf_map_bytes (ascii "content-length") [lengthLine r.lengthText h]
    simpa [isCalled_lengthLine, trimBlanks_lengthLine] using this
  rw [hmore, valuesOf_cons, hvalue]
  rfl

/-! ## When the line is right -/

/-- **The Content-Length line is right** when the size the factory stored is
that of the bytes behind the empty line; without a stored size, when no header
smuggles an empty line into the head. -/
theorem tellsLength_iff (o : ResponseOrigin) (ms : List ResponseSetter)
    (all : List (Bytes × Bytes)) (version : HttpVersion) :
    TellsLength ((o.build ms).serializeIn all version) ↔
      match o.storedLength with
      | none => (o.build ms).smuggled all = []
      | some n => n = ((o.build ms).smuggled all).length + (o.build ms).body.length := by
  have hview := (o.build ms).headView_serializeIn all version
  have hlength := lengthText_build o ms
  have hfirst := head?_valuesOf_shownLines (hlength ▸ isDecimal_toDecimal _) all
  rw [hlength] at hfirst
  have hiff : TellsLength ((o.build ms).serializeIn all version) ↔
      o.storedLength.getD (o.build ms).body.length =
        ((o.build ms).smuggled all).length + (o.build ms).body.length := by
    rw [← List.length_append, ← toDecimal_inj, ← Option.some.injEq, ← hfirst]
    constructor
    · rintro ⟨v, hv, htold⟩
      rw [hview] at hv
      cases hv
      exact htold
    · exact fun h => ⟨_, hview, h⟩
  rw [hiff]
  cases o.storedLength with
  | none =>
      rw [Option.getD_none, ← List.length_eq_zero_iff]
      omega
  | some n => rfl

/-- A body put in the place of the factory's has another size. -/
theorem not_tellsLength_setBody :
    ¬ ∀ (o : ResponseOrigin) (ms : List ResponseSetter), TellsLength (o.build ms).serialize := by
  intro h
  obtain ⟨v, hv, htold⟩ := h (.ok (ascii "hi")) [.setBody (ascii "hello")]
  have hread : (headView ((ResponseOrigin.ok (ascii "hi")).build
      [.setBody (ascii "hello")]).serialize).map (fun v =>
        ((valuesOf (ascii "content-length") v.fields).head?, toDecimal v.rest.length)) =
      some (some (ascii "2"), ascii "5") := by decide +kernel
  rw [hv, Option.map_some, htold] at hread
  simp only [Option.some.injEq, Prod.mk.injEq] at hread
  exact absurd (hread.1.symm.trans hread.2) (by decide)

end HttpsServer
