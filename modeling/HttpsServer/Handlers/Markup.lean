import HttpsServer.Code
import HttpsServer.Handlers

/-!
# HttpsServer.Handlers.Markup

`html_escape` is safe and loses nothing but carriage returns.

Its output is one word for each byte (`escapeCharacter`): a word of the table
below, nothing, or the byte itself where that byte begins no word.  So a
position of the output lies in a word that is known (`Inert`), and reading
words off the front finds their ends again (`unescape_htmlEscape`).
-/

namespace HttpsServer

/-- `<br>` -/
def lineBreak : Bytes := ascii "<br>"

/-- The entities that `html_escape` writes, with what they stand for. -/
def entities : List (Bytes × UInt8) :=
  [(ascii "&amp;", 38), (ascii "&lt;", 60), (ascii "&gt;", 62), (ascii "&quot;", 34),
    (ascii "&#39;", 39)]

/-- A browser's reading of a text without other markup: `<br>` is a new line,
an entity its character. -/
def unescape (text : Bytes) : Bytes := replaceAll ((lineBreak, LF) :: entities) text

/-- A text that shows up as text: it has no tag but `<br>`, no quote, and no
`&` that does not begin an entity of the table. -/
structure Inert (text : Bytes) : Prop where
  opening : ∀ i, text[i]? = some 60 → lineBreak <+: text.drop i
  closing : ∀ i, text[i]? = some 62 → 3 ≤ i ∧ lineBreak <+: text.drop (i - 3)
  doubleQuote : 34 ∉ text
  singleQuote : 39 ∉ text
  ampersand : ∀ i, text[i]? = some 38 → ∃ entity ∈ entities, entity.1 <+: text.drop i

/-! ## Words -/

/-- The bytes for which `html_escape` has a word. -/
def special : Bytes := [38, 60, 62, 34, 39, LF, CR]

/-- The words of the special bytes. -/
def words : List Bytes := [] :: lineBreak :: entities.map Prod.fst

theorem escapeCharacter_mem_words {c : UInt8} (h : c ∈ special) : escapeCharacter c ∈ words := by
  simp only [special, List.mem_cons, List.not_mem_nil, or_false] at h
  rcases h with rfl | rfl | rfl | rfl | rfl | rfl | rfl <;> decide

theorem escapeCharacter_of_notMem {c : UInt8} (h : c ∉ special) : escapeCharacter c = [c] := by
  simp only [special, List.mem_cons, List.not_mem_nil, or_false, not_or] at h
  obtain ⟨h₁, h₂, h₃, h₄, h₅, h₆, h₇⟩ := h
  simp only [escapeCharacter, h₁, h₂, h₃, h₄, h₅, h₆, h₇, if_false]

/-- Where a byte of interest may be in a word. -/
def PlacedIn (w : Bytes) (b : UInt8) (k : Nat) : Prop :=
  (b = 60 → k = 0 ∧ w = lineBreak) ∧ (b = 62 → k = 3 ∧ w = lineBreak) ∧ b ≠ 34 ∧ b ≠ 39 ∧
    (b = 38 → k = 0 ∧ ∃ entity ∈ entities, w = entity.1)

instance (w : Bytes) (b : UInt8) (k : Nat) : Decidable (PlacedIn w b k) := by
  unfold PlacedIn; infer_instance

theorem placedIn_words : ∀ w ∈ words, ∀ e ∈ w.zipIdx, PlacedIn w e.1 e.2 := by decide

theorem placedIn_escapeCharacter {c b : UInt8} {k : Nat} (h : (escapeCharacter c)[k]? = some b) :
    PlacedIn (escapeCharacter c) b k := by
  by_cases hc : c ∈ special
  · exact placedIn_words _ (escapeCharacter_mem_words hc) (b, k) (List.mk_mem_zipIdx_iff_getElem?.2 h)
  · rw [escapeCharacter_of_notMem hc] at h ⊢
    obtain rfl : c = b := by
      cases k with
      | zero => exact Option.some.inj h
      | succ k => cases h
    simp only [special, List.mem_cons, List.not_mem_nil, or_false, not_or] at hc
    obtain ⟨h₁, h₂, h₃, h₄, h₅, -⟩ := hc
    exact ⟨fun h => absurd h h₂, fun h => absurd h h₃, h₄, h₅, fun h => absurd h h₁⟩

/-! ## Safety -/

theorem spells_htmlEscape (s : Bytes) :
    Spells (fun c w => w = escapeCharacter c) s (htmlEscape s) :=
  spells_flatMap escapeCharacter s

/-- A position of the output lies in the word of some byte. -/
theorem exists_word_htmlEscape {s : Bytes} {i : Nat} {b : UInt8}
    (h : (htmlEscape s)[i]? = some b) :
    ∃ w k rest, PlacedIn w b k ∧ k ≤ i ∧ (htmlEscape s).drop (i - k) = w ++ rest := by
  obtain ⟨c, w, k, rest, rfl, hk, hle, hdrop⟩ := (spells_htmlEscape s).exists_word h
  exact ⟨_, k, rest, placedIn_escapeCharacter hk, hle, hdrop⟩

theorem inert_htmlEscape (s : Bytes) : Inert (htmlEscape s) where
  opening := by
    intro i hi
    obtain ⟨w, k, rest, hplaced, -, hdrop⟩ := exists_word_htmlEscape hi
    obtain ⟨rfl, rfl⟩ := hplaced.1 rfl
    exact ⟨rest, hdrop.symm⟩
  closing := by
    intro i hi
    obtain ⟨w, k, rest, hplaced, hle, hdrop⟩ := exists_word_htmlEscape hi
    obtain ⟨rfl, rfl⟩ := hplaced.2.1 rfl
    exact ⟨hle, rest, hdrop.symm⟩
  doubleQuote := by
    intro hmem
    obtain ⟨i, hi⟩ := List.mem_iff_getElem?.1 hmem
    obtain ⟨w, k, rest, hplaced, -⟩ := exists_word_htmlEscape hi
    exact hplaced.2.2.1 rfl
  singleQuote := by
    intro hmem
    obtain ⟨i, hi⟩ := List.mem_iff_getElem?.1 hmem
    obtain ⟨w, k, rest, hplaced, -⟩ := exists_word_htmlEscape hi
    exact hplaced.2.2.2.1 rfl
  ampersand := by
    intro i hi
    obtain ⟨w, k, rest, hplaced, -, hdrop⟩ := exists_word_htmlEscape hi
    obtain ⟨rfl, entity, hentity, rfl⟩ := hplaced.2.2.2.2 rfl
    exact ⟨entity, hentity, rest, hdrop.symm⟩

/-! ## Faithfulness -/

/-- What is left of a byte. -/
def withoutCR (s : Bytes) : Bytes := s.filter (· ≠ CR)

theorem withoutCR_eq_flatMap (s : Bytes) : withoutCR s = s.flatMap fun c => withoutCR [c] := by
  induction s with
  | nil => rfl
  | cons c s ih =>
      rw [List.flatMap_cons, ← ih]
      exact List.filter_append [c] s

/-- Reading takes the word of a byte off the front, whatever follows. -/
theorem unescape_escapeCharacter (c : UInt8) (rest : Bytes) :
    unescape (escapeCharacter c ++ rest) = withoutCR [c] ++ unescape rest := by
  by_cases hc : c ∈ special
  · simp only [special, List.mem_cons, List.not_mem_nil, or_false] at hc
    rcases hc with rfl | rfl | rfl | rfl | rfl | rfl | rfl
    · exact replaceAll_pattern rfl
    · exact replaceAll_pattern rfl
    · exact replaceAll_pattern rfl
    · exact replaceAll_pattern rfl
    · exact replaceAll_pattern rfl
    · exact replaceAll_pattern rfl
    · rfl
  · rw [escapeCharacter_of_notMem hc]
    simp only [special, List.mem_cons, List.not_mem_nil, or_false, not_or] at hc
    have hhead : ∀ entry ∈ (lineBreak, LF) :: entities,
        entry.1.head? = some 38 ∨ entry.1.head? = some 60 := by decide
    have hcopy : unescape (c :: rest) = c :: unescape rest := by
      refine replaceAll_copy fun entry hentry => ?_
      cases hhead entry hentry with
      | inl h => exact ⟨38, h, beq_false_of_ne (Ne.symm hc.1)⟩
      | inr h => exact ⟨60, h, beq_false_of_ne (Ne.symm hc.2.1)⟩
    have hkept : withoutCR [c] = [c] := by simp [withoutCR, hc.2.2.2.2.2.2]
    rw [hkept, List.singleton_append, List.singleton_append, hcopy]

/-- **Reading the output back** gives the input without its carriage returns,
also where the input itself spells tags and entities. -/
theorem unescape_htmlEscape (s : Bytes) : unescape (htmlEscape s) = withoutCR s := by
  have hdecode := (spells_htmlEscape s).decode (d := unescape) (f := fun c => withoutCR [c])
    replaceAll_nil (by rintro c w rest rfl; exact unescape_escapeCharacter c rest)
  rw [hdecode, ← withoutCR_eq_flatMap]

/-! ## The page -/

theorem body_printHandler (request : HttpRequest) :
    (printHandler request).body =
      printPageHead ++ htmlEscape (formValue request.body (ascii "message")) ++ printPageTail := rfl

/-- **HTML escaping is safe and faithful**: no message brings markup into the
page, and two messages that print the same page differ in carriage returns at
most. -/
theorem htmlEscape_safe_and_faithful :
    (∀ s, Inert (htmlEscape s) ∧ unescape (htmlEscape s) = withoutCR s) ∧
    (∀ request, ∃ shown, Inert shown ∧
      (printHandler request).body = printPageHead ++ shown ++ printPageTail) ∧
    ∀ request₁ request₂, (printHandler request₁).body = (printHandler request₂).body →
      withoutCR (formValue request₁.body (ascii "message")) =
        withoutCR (formValue request₂.body (ascii "message")) := by
  refine ⟨fun s => ⟨inert_htmlEscape s, unescape_htmlEscape s⟩, fun request => ?_, ?_⟩
  · exact ⟨_, inert_htmlEscape _, body_printHandler request⟩
  · intro request₁ request₂ hsame
    rw [body_printHandler, body_printHandler] at hsame
    have hshown := List.append_cancel_left (List.append_cancel_right hsame)
    rw [← unescape_htmlEscape, ← unescape_htmlEscape, hshown]

end HttpsServer
