import HttpsServer.Code
import HttpsServer.Handlers
import HttpsServer.History

/-!
# HttpsServer.Handlers.Form

`form_value` reads what an `application/x-www-form-urlencoded` writer wrote.

A writer has choices, so what it writes is a relation (`FormEncodes`), given
byte by byte: names canonically, values with every freedom the format leaves.
The reader is taken apart in the two scanners it is made of: `urlDecode` takes
every word of a byte off the front of any text (`urlDecode_valueWord`), and the
field loop passes over the fields in order (`formValueFrom_fields`).
-/

namespace HttpsServer

/-! ## Writing a form -/

/-- A hexadecimal digit, in upper or in lower case. -/
def hexDigit (upper : Bool) (n : Nat) : UInt8 :=
  (if upper then ascii "0123456789ABCDEF" else ascii "0123456789abcdef").getD n 0

/-- `%XX` for a byte, each digit in either case. -/
def percentEscape (upper₁ upper₂ : Bool) (b : UInt8) : Bytes :=
  [37, hexDigit upper₁ (b.toNat / 16), hexDigit upper₂ (b.toNat % 16)]

/-- The characters that a writer leaves as they are in a name.  They never
include those that the format gives a meaning. -/
structure Unreserved where
  mem : UInt8 → Bool
  plain : ∀ b, mem b = true → b ≠ 37 ∧ b ≠ 38 ∧ b ≠ 43 ∧ b ≠ 61

/-- Letters, digits, `-`, `.`, `_` and `~`. -/
def Unreserved.uri : Unreserved where
  mem b := isDigit b || (65 ≤ b && b ≤ 90) || (97 ≤ b && b ≤ 122) || (ascii "-._~").contains b
  plain := by
    intro b hb
    refine ⟨?_, ?_, ?_, ?_⟩ <;> rintro rfl <;> revert hb <;> decide

/-- How a byte of a name is written. -/
inductive NameWord (U : Unreserved) : UInt8 → Bytes → Prop
  | plain {b : UInt8} : U.mem b = true → NameWord U b [b]
  | space : U.mem 32 = false → NameWord U 32 [43]
  | escape {b : UInt8} (upper₁ upper₂ : Bool) :
      U.mem b = false → NameWord U b (percentEscape upper₁ upper₂ b)

/-- How a byte of a value may be written. -/
inductive ValueWord : UInt8 → Bytes → Prop
  | literal {b : UInt8} : b ≠ 43 ∧ b ≠ 37 ∧ b ≠ 38 → ValueWord b [b]
  | space : ValueWord 32 [43]
  | escape {b : UInt8} (upper₁ upper₂ : Bool) : ValueWord b (percentEscape upper₁ upper₂ b)

/-- A field is a name and a value that are written with `=` between them. -/
def FieldEncodes (U : Unreserved) (pair : Bytes × Bytes) (field : Bytes) : Prop :=
  ∃ name value, Spells (NameWord U) pair.1 name ∧ Spells ValueWord pair.2 value ∧
    field = name ++ 61 :: value

/-- The body is the fields of the pairs, joined by `&`. -/
def FormEncodes (U : Unreserved) (pairs : List (Bytes × Bytes)) (body : Bytes) : Prop :=
  ∃ fields, List.Forall₂ (FieldEncodes U) pairs fields ∧ body = [38].intercalate fields

/-! ## Decoding bytes -/

theorem hexDigit_spec (upper : Bool) {n : Nat} (h : n < 16) :
    isXDigit (hexDigit upper n) = true ∧ hexValue (hexDigit upper n) = n := by
  revert n upper
  decide

theorem urlDecode_nil : urlDecode [] = [] := rfl

theorem urlDecode_plus (rest : Bytes) : urlDecode (43 :: rest) = 32 :: urlDecode rest := by
  rw [urlDecode.eq_def]
  rfl

/-- A byte other than `+` and `%` stands for itself, whatever follows. -/
theorem urlDecode_literal {b : UInt8} (hplus : b ≠ 43) (hpercent : b ≠ 37) (rest : Bytes) :
    urlDecode (b :: rest) = b :: urlDecode rest := by
  rw [urlDecode.eq_def]
  simp only [if_neg hplus, hpercent, false_and, if_false]
  split <;> rfl

/-- An escape is taken off as a whole, also at the very end of the text. -/
theorem urlDecode_percentEscape (upper₁ upper₂ : Bool) (b : UInt8) (rest : Bytes) :
    urlDecode (percentEscape upper₁ upper₂ b ++ rest) = b :: urlDecode rest := by
  have hlt : b.toNat < 256 := b.toNat_lt
  obtain ⟨hdigit₁, hvalue₁⟩ := hexDigit_spec upper₁ (n := b.toNat / 16) (by omega)
  obtain ⟨hdigit₂, hvalue₂⟩ := hexDigit_spec upper₂ (n := b.toNat % 16) (by omega)
  have hbyte : (b.toNat / 16 * 16 + b.toNat % 16).toUInt8 = b := by
    rw [Nat.div_add_mod']
    exact UInt8.ofNat_toNat
  rw [percentEscape, List.cons_append, List.cons_append, List.cons_append, List.nil_append,
    urlDecode.eq_def]
  simp [hdigit₁, hdigit₂, hvalue₁, hvalue₂, hbyte]

theorem urlDecode_valueWord {b : UInt8} {w : Bytes} (h : ValueWord b w) (rest : Bytes) :
    urlDecode (w ++ rest) = [b] ++ urlDecode rest := by
  cases h with
  | literal hb => exact urlDecode_literal hb.1 hb.2.1 rest
  | space => exact urlDecode_plus rest
  | escape upper₁ upper₂ => exact urlDecode_percentEscape upper₁ upper₂ b rest

/-- `url_decode` undoes every way to write a value. -/
theorem urlDecode_of_spells {value w : Bytes} (h : Spells ValueWord value w) :
    urlDecode w = value := by
  rw [h.decode (f := fun b => [b]) urlDecode_nil fun _ _ rest hw => urlDecode_valueWord hw rest]
  simp

/-! ## Separators and names -/

theorem isXDigit_ne {b : UInt8} (h : isXDigit b = true) : b ≠ 38 ∧ b ≠ 61 := by
  constructor <;> rintro rfl <;> revert h <;> decide

theorem percentEscape_ne {upper₁ upper₂ : Bool} {b c : UInt8}
    (h : c ∈ percentEscape upper₁ upper₂ b) : c ≠ 38 ∧ c ≠ 61 := by
  have hlt : b.toNat < 256 := b.toNat_lt
  simp only [percentEscape, List.mem_cons, List.not_mem_nil, or_false] at h
  rcases h with rfl | rfl | rfl
  · decide
  · exact isXDigit_ne (hexDigit_spec _ (by omega)).1
  · exact isXDigit_ne (hexDigit_spec _ (by omega)).1

/-- No `&` and no `=` in a written name. -/
theorem name_ne {U : Unreserved} {name w : Bytes} (h : Spells (NameWord U) name w) :
    ∀ c ∈ w, c ≠ 38 ∧ c ≠ 61 := by
  refine h.forall_mem fun b w hw => ?_
  cases hw with
  | plain hb =>
      intro c hc
      rw [List.mem_singleton.1 hc]
      exact ⟨(U.plain b hb).2.1, (U.plain b hb).2.2.2⟩
  | space _ => exact List.forall_mem_singleton.2 ⟨by decide, by decide⟩
  | escape _ _ _ => exact fun c => percentEscape_ne

/-- No `&` in a written value. -/
theorem value_ne {value w : Bytes} (h : Spells ValueWord value w) : ∀ c ∈ w, c ≠ 38 := by
  refine h.forall_mem fun b w hw => ?_
  cases hw with
  | literal hb =>
      intro c hc
      rw [List.mem_singleton.1 hc]
      exact hb.2.2
  | space => exact List.forall_mem_singleton.2 (by decide)
  | escape _ _ => exact fun c hc => (percentEscape_ne hc).1

/-- A byte that is written as unreserved characters is one, and stands for
itself. -/
theorem nameWord_eq {U : Unreserved} {b : UInt8} {w : Bytes} (h : NameWord U b w)
    (hplain : U.mem b = true ∨ ∀ c ∈ w, U.mem c = true) : w = [b] := by
  have hreserved : ∀ c ∈ w, U.mem c = false → U.mem b = false → w = [b] := by
    intro c hc hcU hbU
    rcases hplain with hb | hw
    · rw [hbU] at hb
      cases hb
    · rw [hw c hc] at hcU
      cases hcU
  cases h with
  | plain _ => rfl
  | space hb =>
      refine hreserved 43 (by simp) ?_ hb
      exact Bool.eq_false_iff.2 fun hmem => (U.plain 43 hmem).2.2.1 rfl
  | escape upper₁ upper₂ hb =>
      refine hreserved 37 (by simp [percentEscape]) ?_ hb
      exact Bool.eq_false_iff.2 fun hmem => (U.plain 37 hmem).1 rfl

theorem name_eq {U : Unreserved} {name w : Bytes} (h : Spells (NameWord U) name w)
    (hplain : (∀ b ∈ name, U.mem b = true) ∨ ∀ c ∈ w, U.mem c = true) : w = name := by
  induction h with
  | nil => rfl
  | cons hword _ ih =>
      have hfirst := nameWord_eq hword <| hplain.imp (fun h => h _ List.mem_cons_self)
        fun h c hc => h c (List.mem_append_left _ hc)
      have hrest := ih <| hplain.imp (fun h b hb => h b (List.mem_cons_of_mem _ hb))
        fun h c hc => h c (List.mem_append_right _ hc)
      rw [hfirst, hrest, List.singleton_append]

/-- A written name is compared with a name of unreserved characters as the name
itself would be. -/
theorem name_eq_iff {U : Unreserved} {name w query : Bytes} (h : Spells (NameWord U) name w)
    (hquery : ∀ b ∈ query, U.mem b = true) : w = query ↔ name = query := by
  constructor
  · intro he
    rw [← name_eq h (.inr (he ▸ hquery)), he]
  · intro he
    rw [name_eq h (.inl (he ▸ hquery)), he]

/-! ## Fields -/

theorem fieldValue_append {name value query : Bytes} (h : 61 ∉ name) :
    fieldValue (name ++ 61 :: value) query =
      if name = query then some (urlDecode value) else none := by
  have hskip : (name ++ 61 :: value).drop (name.length + 1) = value := by simp
  rw [fieldValue, idxOf?_append_cons h]
  simp only [List.take_left, hskip]

theorem fieldValue_of_encodes {U : Unreserved} {pair : Bytes × Bytes} {field query : Bytes}
    (h : FieldEncodes U pair field) (hquery : ∀ b ∈ query, U.mem b = true) :
    fieldValue field query = if pair.1 = query then some pair.2 else none := by
  obtain ⟨name, value, hname, hvalue, rfl⟩ := h
  rw [fieldValue_append fun hmem => (name_ne hname 61 hmem).2 rfl, urlDecode_of_spells hvalue]
  simp only [name_eq_iff hname hquery]

theorem FieldEncodes.ne {U : Unreserved} {pair : Bytes × Bytes} {field : Bytes}
    (h : FieldEncodes U pair field) : 38 ∉ field := by
  obtain ⟨name, value, hname, hvalue, rfl⟩ := h
  simp only [List.mem_append, List.mem_cons, not_or]
  exact ⟨fun hmem => (name_ne hname 38 hmem).1 rfl, by decide, fun hmem => value_ne hvalue 38 hmem rfl⟩

theorem findAmpersand_last {before field : Bytes} (h : 38 ∉ field) :
    findAmpersand (before ++ field) before.length = none := by
  rw [findAmpersand, List.drop_left, List.idxOf?_eq_none_iff.2 h]
  rfl

theorem findAmpersand_next {before field rest : Bytes} (h : 38 ∉ field) :
    findAmpersand (before ++ (field ++ 38 :: rest)) before.length =
      some (field.length + before.length) := by
  rw [findAmpersand, List.drop_left, idxOf?_append_cons h]
  rfl

/-- The loop at the last field. -/
theorem formValueFrom_last {before field name : Bytes} (h : 38 ∉ field) :
    formValueFrom (before ++ field) name before.length = (fieldValue field name).getD [] := by
  have hfield : ((before ++ field).drop before.length).take ((before ++ field).length - before.length) =
      field := by
    rw [List.drop_left, List.length_append, Nat.add_sub_cancel_left, List.take_length]
  rw [formValueFrom, if_pos (by simp)]
  split
  · rw [hfield]
  · next i hi =>
    rw [findAmpersand_last h] at hi
    cases hi

/-- The loop at a field that is not the last. -/
theorem formValueFrom_next {before field rest name : Bytes} (h : 38 ∉ field) :
    formValueFrom (before ++ (field ++ 38 :: rest)) name before.length =
      (fieldValue field name).getD
        (formValueFrom (before ++ (field ++ 38 :: rest)) name (before ++ (field ++ [38])).length) := by
  have hfield : ((before ++ (field ++ 38 :: rest)).drop before.length).take
      (field.length + before.length - before.length) = field := by
    rw [List.drop_left, Nat.add_sub_cancel, List.take_left]
  have hnext : field.length + before.length + 1 = (before ++ (field ++ [38])).length := by
    simp only [List.length_append, List.length_singleton]
    omega
  rw [formValueFrom, if_pos (by simp)]
  split
  · next hnone =>
    rw [findAmpersand_next h] at hnone
    cases hnone
  · next i hi =>
    rw [findAmpersand_next h] at hi
    cases hi
    rw [hfield, hnext]
    cases fieldValue field name <;> rfl

/-- **The field loop** passes over the fields in their order, up to the first
that has the name.  `before` is what the index has gone past. -/
theorem formValueFrom_fields {fields : List Bytes} (h : ∀ field ∈ fields, 38 ∉ field)
    (before name : Bytes) :
    formValueFrom (before ++ [38].intercalate fields) name before.length =
      (fields.findSome? fun field => fieldValue field name).getD [] := by
  induction fields generalizing before with
  | nil =>
      -- an empty body is one empty field
      exact formValueFrom_last List.not_mem_nil
  | cons field fields ih =>
      have hfield := h field List.mem_cons_self
      cases fields with
      | nil =>
          rw [List.intercalate_singleton, formValueFrom_last hfield, List.findSome?_singleton]
      | cons next fields =>
          have hjoin : [38].intercalate (field :: next :: fields) =
              field ++ 38 :: [38].intercalate (next :: fields) := by
            rw [List.intercalate_cons_cons, List.append_assoc, List.singleton_append]
          have hpast : before ++ (field ++ 38 :: [38].intercalate (next :: fields)) =
              before ++ (field ++ [38]) ++ [38].intercalate (next :: fields) := by
            simp only [List.append_assoc, List.singleton_append]
          have hrest := ih (fun f hf => h f (List.mem_cons_of_mem _ hf)) (before ++ (field ++ [38]))
          rw [hjoin, formValueFrom_next hfield, hpast, hrest]
          conv => rhs; rw [List.findSome?_cons]
          cases fieldValue field name <;> rfl

/-! ## The form -/

theorem fields_ne {U : Unreserved} {pairs : List (Bytes × Bytes)} {fields : List Bytes}
    (h : List.Forall₂ (FieldEncodes U) pairs fields) : ∀ field ∈ fields, 38 ∉ field := by
  induction h with
  | nil => exact fun field hmem => absurd hmem List.not_mem_nil
  | cons hfield _ ih => exact List.forall_mem_cons.2 ⟨hfield.ne, ih⟩

theorem findSome?_fields {U : Unreserved} {pairs : List (Bytes × Bytes)} {fields : List Bytes}
    (h : List.Forall₂ (FieldEncodes U) pairs fields) {query : Bytes}
    (hquery : ∀ b ∈ query, U.mem b = true) :
    (fields.findSome? fun field => fieldValue field query) =
      (firstUnder Prod.fst query pairs).map Prod.snd := by
  induction h with
  | nil => rfl
  | @cons pair field pairs fields hfield _ ih =>
      rw [List.findSome?_cons, fieldValue_of_encodes hfield hquery, firstUnder, List.find?_cons]
      by_cases hpair : pair.1 = query
      · simp [hpair]
      · simpa [hpair, firstUnder] using ih

/-- `form_value` on the fields of the pairs. -/
theorem formValue_fields {U : Unreserved} {pairs : List (Bytes × Bytes)} {fields : List Bytes}
    (h : List.Forall₂ (FieldEncodes U) pairs fields) {name : Bytes}
    (hname : ∀ b ∈ name, U.mem b = true) :
    formValue ([38].intercalate fields) name =
      ((firstUnder Prod.fst name pairs).map Prod.snd).getD [] := by
  have hloop := formValueFrom_fields (fields_ne h) [] name
  rwa [findSome?_fields h hname] at hloop

/-- **Form decoding undoes form encoding**: in every way to write the pairs,
`form_value` finds the value of the first pair with the name, and nothing if
there is none. -/
theorem formValue_of_encodes (U : Unreserved) {pairs : List (Bytes × Bytes)} {body : Bytes}
    (h : FormEncodes U pairs body) {name : Bytes} (hname : ∀ b ∈ name, U.mem b = true) :
    formValue body name = ((firstUnder Prod.fst name pairs).map Prod.snd).getD [] := by
  obtain ⟨fields, hfields, rfl⟩ := h
  exact formValue_fields hfields hname

/-- The pairs `x`: `1`, `m`: a blank and `+`, `m`: nothing. -/
theorem formValue_of_encodes_repeated : formValue (ascii "x=1&m=+%2b&m=") (ascii "m") = ascii " +" :=
  have name_x : Spells (NameWord .uri) [120] [120] := .cons (NameWord.plain rfl) .nil
  have name_m : Spells (NameWord .uri) [109] [109] := .cons (NameWord.plain rfl) .nil
  have value_one : Spells ValueWord [49] [49] := .cons (ValueWord.literal (by decide)) .nil
  have value_plus : Spells ValueWord [32, 43] [43, 37, 50, 98] :=
    .cons ValueWord.space (.cons (ValueWord.escape false false) .nil)
  @formValue_of_encodes .uri [([120], [49]), ([109], [32, 43]), ([109], [])] (ascii "x=1&m=+%2b&m=")
    ⟨[ascii "x=1", ascii "m=+%2b", ascii "m="],
      .cons ⟨[120], [49], name_x, value_one, by decide⟩
        (.cons ⟨[109], [43, 37, 50, 98], name_m, value_plus, by decide⟩
          (.cons ⟨[109], [], name_m, .nil, by decide⟩ .nil)),
      by decide⟩
    (ascii "m") (List.forall_mem_singleton.2 rfl)

end HttpsServer
