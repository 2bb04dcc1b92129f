import HttpsServer.Response
import HttpsServer.Parser.Lines

/-!
# HttpsServer.Response.Head

The output of `serialize` as lines, and the lines that its reader finds.

`serialize` writes a status line, the header lines of `fields`, an empty line
and the body (`serializeIn_eq`).  It does not look into the header values, so
a reader may find more lines than were written, or an empty line before the
last one: `shownLines` are the header lines it finds and `smuggled` are the
bytes of the head that it takes for the body (`headView_serializeIn`).  Where
every stored header fits one line (`HeadersOk`) the lines read are the lines
written and nothing is smuggled.
-/

namespace HttpsServer

/-! ## Header names -/

theorem toLower_eq_lowercase (s : Bytes) : toLower s = lowercase s := by
  refine List.map_congr_left fun b _ => ?_
  unfold toLowerByte
  grind

theorem lowercase_titleCaseRest (previous : UInt8) (s : Bytes) :
    lowercase (titleCaseRest previous s) = lowercase s := by
  induction s generalizing previous with
  | nil => rfl
  | cons b s ih =>
      have hrest := ih (if previous = 45 then toUpperByte b else b)
      simp only [lowercase, titleCaseRest, List.map_cons] at hrest ⊢
      rw [hrest]
      split
      · rw [toLowerByte_toUpperByte]
      · rfl

/-- Title case is undone by lower case. -/
theorem lowercase_titleCaseHeader (s : Bytes) : lowercase (titleCaseHeader s) = lowercase s := by
  unfold titleCaseHeader
  split
  · rfl
  · rfl
  · next b rest _ =>
    have hrest := lowercase_titleCaseRest (toUpperByte b) rest
    simp only [lowercase, List.map_cons] at hrest ⊢
    rw [hrest, toLowerByte_toUpperByte]

/-- A byte that is no letter is in the lower-case form only if it is in the
string. -/
theorem mem_lowercase {b : UInt8} (hb : b < 65) {s : Bytes} : b ∈ lowercase s ↔ b ∈ s := by
  unfold lowercase toLowerByte
  rw [List.mem_map]
  constructor
  · rintro ⟨c, hc, he⟩
    have : c = b := by grind
    exact this ▸ hc
  · exact fun h => ⟨b, h, by grind⟩

theorem mem_titleCaseHeader {b : UInt8} (hb : b < 65) {s : Bytes} :
    b ∈ titleCaseHeader s ↔ b ∈ s := by
  rw [← mem_lowercase hb, lowercase_titleCaseHeader, mem_lowercase hb]

namespace HttpResponse

/-! ## The lines written -/

def statusLine (r : HttpResponse) (version : HttpVersion) : Bytes :=
  ascii "HTTP/" ++ (if version = .http10 then ascii "1.0" else ascii "1.1") ++
    ascii " " ++ toDecimal r.status.code ++ ascii " " ++ reasonPhrase r.status

/-- The headers that `serialize` writes, in their order: the names as they
are written, and the values. -/
def fields (r : HttpResponse) (all : List (Bytes × Bytes)) : List (Bytes × Bytes) :=
  (ascii "Content-Length", r.lengthText) :: (ascii "Connection", r.connectionText) ::
    ((all.filter fun e => !isReserved e.1).map (fun e => (titleCaseHeader e.1, e.2)) ++
      [(ascii "Content-Type", r.headers.valueOr (ascii "Content-Type"))])

/-- A header line, without its CRLF. -/
def writeField (f : Bytes × Bytes) : Bytes := f.1 ++ ascii ": " ++ f.2

def fieldLines (r : HttpResponse) (all : List (Bytes × Bytes)) : List Bytes :=
  (r.fields all).map writeField

theorem lengthText_eq (r : HttpResponse) :
    r.lengthText = (r.headers.get (ascii "Content-Length")).getD (toDecimal r.body.length) := by
  unfold lengthText Headers.contains Headers.valueOr
  cases r.headers.get (ascii "Content-Length") <;> rfl

theorem flatMap_writeHeader (all : List (Bytes × Bytes)) :
    all.flatMap writeHeader =
      joinLines CR LF (((all.filter fun e => !isReserved e.1).map
        fun e => (titleCaseHeader e.1, e.2)).map writeField) := by
  induction all with
  | nil => rfl
  | cons e all ih =>
      rw [List.flatMap_cons, ih]
      cases h : isReserved e.1 with
      | true => simp [writeHeader, h]
      | false => simp [writeHeader, writeField, h]

/-- **The output of `serialize`**: status line, header lines, empty line and
body. -/
theorem serializeIn_eq (r : HttpResponse) (all : List (Bytes × Bytes)) (version : HttpVersion) :
    r.serializeIn all version =
      r.statusLine version ++ crlf ++ joinLines CR LF (r.fieldLines all) ++ crlf ++ r.body := by
  have hbody : (if r.body ≠ [] then r.body else []) = r.body := by
    split
    · rfl
    · next h => exact (not_not.mp h).symm
  rw [serializeIn, hbody, flatMap_writeHeader, fieldLines, fields, List.map_cons, List.map_cons,
    joinLines_cons, joinLines_cons, List.map_append, joinLines_append]
  simp [statusLine, writeField, ascii]

/-- There is no CR in the status line. -/
theorem cr_notMem_statusLine (r : HttpResponse) (version : HttpVersion) :
    CR ∉ r.statusLine version := by
  have hdec : CR ∉ toDecimal r.status.code := fun h => by
    have := (isDecimal_toDecimal r.status.code).2 _ h
    contradiction
  have hreason : CR ∉ reasonPhrase r.status := by cases r.status <;> decide
  have hversion : CR ∉ (if version = .http10 then ascii "1.0" else ascii "1.1") := by
    split <;> decide
  have hhttp : CR ∉ ascii "HTTP/" := by decide
  have hblank : CR ∉ ascii " " := by decide
  simp only [statusLine, List.mem_append]
  tauto

/-- A text without a CR holds no CRLF. -/
theorem not_crlf_of_cr_notMem {s : Bytes} (h : CR ∉ s) : ¬ crlf <:+: s :=
  fun hin => h (hin.subset (by simp))

theorem isLine_statusLine (r : HttpResponse) (version : HttpVersion) :
    IsLine CR LF (r.statusLine version) :=
  ⟨by simp [statusLine, ascii], not_crlf_of_cr_notMem (r.cr_notMem_statusLine version)⟩

/-! ## The lines read -/

/-- The header lines that a reader of the output finds. -/
def shownLines (r : HttpResponse) (all : List (Bytes × Bytes)) : List Bytes :=
  (cutBlock CR LF (joinLines CR LF (r.fieldLines all) ++ crlf)).1

/-- What follows the first empty line of the head, where that is not its
end. -/
def smuggled (r : HttpResponse) (all : List (Bytes × Bytes)) : Bytes :=
  match (cutBlock CR LF (joinLines CR LF (r.fieldLines all) ++ crlf)).2 with
  | .closed after => after
  | .unclosed rest => rest

/-- The head always has an empty line. -/
theorem cutBlock_fieldLines (r : HttpResponse) (all : List (Bytes × Bytes)) :
    cutBlock CR LF (joinLines CR LF (r.fieldLines all) ++ crlf) =
      (r.shownLines all, .closed (r.smuggled all)) := by
  have hne : r.fieldLines all ≠ [] := by simp [fieldLines, fields]
  obtain ⟨init, last, hlast⟩ : ∃ init last, r.fieldLines all = init ++ [last] :=
    ⟨_, _, (List.dropLast_append_getLast hne).symm⟩
  obtain ⟨ls, after, h⟩ := cutBlock_append_double CR_ne_LF (joinLines CR LF init ++ last)
  have hjoin : joinLines CR LF (r.fieldLines all) ++ crlf =
      joinLines CR LF init ++ last ++ [CR, LF, CR, LF] := by
    rw [hlast, joinLines_append]
    simp
  rw [shownLines, smuggled, hjoin, h]

/-- **What a reader makes of the output.** -/
theorem headView_serializeIn (r : HttpResponse) (all : List (Bytes × Bytes))
    (version : HttpVersion) :
    headView (r.serializeIn all version) =
      some ⟨r.statusLine version, r.shownLines all, .closed (r.smuggled all ++ r.body)⟩ := by
  have hblock := cutBlock_closed_append CR_ne_LF (r.cutBlock_fieldLines all) r.body
  have hcut := cutPair_append_pair CR_ne_LF (r.isLine_statusLine version).2
    (joinLines CR LF (r.fieldLines all) ++ crlf ++ r.body)
  rw [headView, serializeIn_eq]
  simp only [List.append_assoc, List.cons_append, List.nil_append] at hcut hblock ⊢
  rw [hcut, Option.map_some, hblock]

/-- Lines without a CRLF in them are read as they were written. -/
theorem shown_of_unbroken {r : HttpResponse} {all : List (Bytes × Bytes)}
    (h : ∀ l ∈ r.fieldLines all, ¬ crlf <:+: l) :
    r.shownLines all = r.fieldLines all ∧ r.smuggled all = [] := by
  have hlines : ∀ l ∈ r.fieldLines all, IsLine CR LF l := by
    intro l hl
    obtain ⟨f, -, rfl⟩ := List.mem_map.mp hl
    exact ⟨by simp [writeField, ascii], h _ hl⟩
  have hcut : cutBlock CR LF (joinLines CR LF (r.fieldLines all) ++ crlf) =
      (r.fieldLines all, .closed []) := (cutBlock_closed_iff CR_ne_LF).mpr ⟨rfl, hlines⟩
  rw [shownLines, smuggled, hcut]
  exact ⟨rfl, rfl⟩

/-! ## Headers that fit a line -/

/-- Names without colon, CR and LF, values without CR and LF. -/
def HeadersOk (r : HttpResponse) : Prop :=
  ∀ e ∈ r.headers.all, (58 ∉ e.1 ∧ CR ∉ e.1 ∧ LF ∉ e.1) ∧ CR ∉ e.2 ∧ LF ∉ e.2

instance (r : HttpResponse) : Decidable r.HeadersOk := by unfold HeadersOk; infer_instance

theorem cr_notMem_valueOr {r : HttpResponse} (h : r.HeadersOk) (name : Bytes) :
    CR ∉ r.headers.valueOr name := by
  unfold Headers.valueOr
  cases hg : r.headers.get name with
  | none => simp
  | some value => exact (h _ (Headers.mem_all.mpr hg)).2.1

theorem cr_notMem_lengthText {r : HttpResponse} (h : r.HeadersOk) : CR ∉ r.lengthText := by
  unfold lengthText
  split
  · intro hmem
    have := (isDecimal_toDecimal r.body.length).2 _ hmem
    contradiction
  · exact cr_notMem_valueOr h _

/-- The names and values written fit a line, when those stored do. -/
theorem fields_ok {r : HttpResponse} (h : r.HeadersOk) {all : List (Bytes × Bytes)}
    (hall : ∀ e ∈ all, e ∈ r.headers.all) :
    ∀ f ∈ r.fields all, 58 ∉ f.1 ∧ CR ∉ f.1 ∧ CR ∉ f.2 := by
  have hlength : 58 ∉ ascii "Content-Length" ∧ CR ∉ ascii "Content-Length" := by decide
  have hconnection : 58 ∉ ascii "Connection" ∧ CR ∉ ascii "Connection" := by decide
  have htype : 58 ∉ ascii "Content-Type" ∧ CR ∉ ascii "Content-Type" := by decide
  have hoption : CR ∉ r.connectionText := by unfold connectionText; split <;> decide
  intro f hf
  simp only [fields, List.mem_cons, List.mem_append, List.mem_map, List.mem_filter,
    List.not_mem_nil, or_false] at hf
  rcases hf with rfl | rfl | ⟨e, ⟨he, -⟩, rfl⟩ | rfl
  · exact ⟨hlength.1, hlength.2, cr_notMem_lengthText h⟩
  · exact ⟨hconnection.1, hconnection.2, hoption⟩
  · obtain ⟨⟨hcolon, hcr, -⟩, hvalue, -⟩ := h e (hall e he)
    exact ⟨mt (mem_titleCaseHeader (by decide)).mp hcolon,
      mt (mem_titleCaseHeader (by decide)).mp hcr, hvalue⟩
  · exact ⟨htype.1, htype.2, cr_notMem_valueOr h _⟩

theorem fieldLines_unbroken {r : HttpResponse} (h : r.HeadersOk) {all : List (Bytes × Bytes)}
    (hall : ∀ e ∈ all, e ∈ r.headers.all) : ∀ l ∈ r.fieldLines all, ¬ crlf <:+: l := by
  intro l hl
  obtain ⟨f, hf, rfl⟩ := List.mem_map.mp hl
  obtain ⟨-, hname, hvalue⟩ := fields_ok h hall f hf
  refine not_crlf_of_cr_notMem ?_
  simp only [writeField, List.mem_append, not_or]
  exact ⟨⟨hname, by decide⟩, hvalue⟩

end HttpResponse

end HttpsServer
