import HttpsServer.Config

/-!
# HttpsServer.Config.Integers

Which settings `get_int` takes for integers.

`std::stoi` reads a number from the front of a text: white space before it and
anything behind it are passed over (`stoi_eq_some_iff`).  So the values that are
read although they are not integers are those with an integer inside, in this
place (`IsLoose`).
-/

namespace HttpsServer

/-! ## stoi -/

/-- The sign of a number: none, or a minus (`true`) or plus sign. -/
def signText : Option Bool → Bytes
  | none => []
  | some true => [45]
  | some false => [43]

/-- An optional sign and decimal digits, nothing else, denoting `n`. -/
def IsInteger (v : Bytes) (n : Int) : Prop :=
  ∃ sign ds, v = signText sign ++ ds ∧ IsDecimal ds ∧
    n = signedValue (sign == some true) (decimalValue ds) ∧ IsInt32 n

/-- The text has an integer behind some white space, with something after it
that does not go on with a digit. -/
def IsSurrounded (v blanks rest : Bytes) (n : Int) : Prop :=
  ∃ w, v = blanks ++ (w ++ rest) ∧ IsInteger w n ∧ (∀ b ∈ blanks, isSpace b = true) ∧
    ∀ b, rest.head? = some b → isDigit b = false

/-- A text that is no integer but has one inside. -/
def IsLoose (v : Bytes) : Prop :=
  ∃ blanks rest n, IsSurrounded v blanks rest n ∧ (blanks ≠ [] ∨ rest ≠ [])

theorem isSpace_eq_false {b : UInt8} (h : isDigit b = true ∨ b = 43 ∨ b = 45) :
    isSpace b = false := by
  rcases h with h | rfl | rfl
  · simp only [isDigit, Bool.and_eq_true, decide_eq_true_eq] at h
    simp only [isSpace, Bool.or_eq_false_iff, decide_eq_false_iff_not]
    grind
  · rfl
  · rfl

/-- The sign is told from the digits behind it. -/
theorem takeSign_signText (sign : Option Bool) {ds : Bytes} (h : IsDecimal ds) (rest : Bytes) :
    takeSign (signText sign ++ (ds ++ rest)) = (sign == some true, ds ++ rest) := by
  obtain ⟨hne, hdigits⟩ := h
  obtain ⟨b, ds, rfl⟩ := List.exists_cons_of_ne_nil hne
  have hb : isDigit b = true := hdigits b List.mem_cons_self
  have h45 : b ≠ 45 := by rintro rfl; cases hb
  have h43 : b ≠ 43 := by rintro rfl; cases hb
  match sign with
  | some true => rfl
  | some false => rfl
  | none => simp [signText, takeSign, h45, h43]

/-- What is taken off is a sign. -/
theorem exists_signText (t : Bytes) :
    ∃ sign, t = signText sign ++ (takeSign t).2 ∧ (takeSign t).1 = (sign == some true) := by
  cases t with
  | nil => exact ⟨none, rfl, rfl⟩
  | cons b t =>
      by_cases h45 : b = 45
      · exact ⟨some true, by simp [takeSign, signText, h45], by simp [takeSign, h45]⟩
      · by_cases h43 : b = 43
        · exact ⟨some false, by simp [takeSign, signText, h43], by simp [takeSign, h43]⟩
        · exact ⟨none, by simp [takeSign, signText, h45, h43], by simp [takeSign, h45, h43]⟩

/-- No white space in front of a number with its sign. -/
theorem dropWhile_signText (sign : Option Bool) {ds : Bytes} (h : IsDecimal ds) (rest : Bytes) :
    (signText sign ++ (ds ++ rest)).dropWhile isSpace = signText sign ++ (ds ++ rest) := by
  obtain ⟨b, ds, rfl⟩ := List.exists_cons_of_ne_nil h.1
  have hb : isSpace b = false := isSpace_eq_false (.inl (h.2 b List.mem_cons_self))
  match sign with
  | some true => rfl
  | some false => rfl
  | none => simp [signText, hb]

theorem takeWhile_isDigit {ds rest : Bytes} (h : IsDecimal ds)
    (hrest : ∀ b, rest.head? = some b → isDigit b = false) :
    (ds ++ rest).takeWhile isDigit = ds := by
  rw [List.takeWhile_append_of_pos h.2]
  cases rest with
  | nil => simp
  | cons b rest => simp [hrest b rfl]

/-- **What `std::stoi` reads**: an integer in the `int` range with white space
before it and any text behind it. -/
theorem stoi_eq_some_iff {v : Bytes} {n : Int} :
    stoi v = some n ↔ ∃ blanks rest, IsSurrounded v blanks rest n := by
  constructor
  · intro h
    obtain ⟨sign, htext, hsign⟩ := exists_signText (v.dropWhile isSpace)
    simp only [stoi] at h
    split at h
    · cases h
    · next hne =>
      split at h
      · next hrange =>
        generalize hr : (takeSign (v.dropWhile isSpace)).2 = r at h hne hrange htext
        rw [hsign] at h hrange
        refine ⟨v.takeWhile isSpace, r.dropWhile isDigit, signText sign ++ r.takeWhile isDigit, ?_,
          ⟨sign, _, rfl, ⟨hne, fun b hb => List.mem_takeWhile_imp hb⟩, (Option.some.inj h).symm, ?_⟩,
          fun b hb => List.mem_takeWhile_imp hb, fun b hb => ?_⟩
        · rw [List.append_assoc, List.takeWhile_append_dropWhile, ← htext,
            List.takeWhile_append_dropWhile]
        · rw [← Option.some.inj h]
          exact hrange
        · have hnot := List.head?_dropWhile_not isDigit r
          rw [hb] at hnot
          exact hnot
      · cases h
  · rintro ⟨blanks, rest, w, rfl, ⟨sign, ds, rfl, hds, rfl, hrange⟩, hblanks, hrest⟩
    have hdrop : (blanks ++ (signText sign ++ ds ++ rest)).dropWhile isSpace =
        signText sign ++ (ds ++ rest) := by
      rw [List.dropWhile_append_of_pos hblanks, List.append_assoc, dropWhile_signText sign hds]
    simp only [stoi, hdrop, takeSign_signText sign hds, takeWhile_isDigit hds hrest, if_neg hds.1,
      if_pos hrange]

theorem IsInteger.surrounded {v : Bytes} {n : Int} (h : IsInteger v n) : IsSurrounded v [] [] n :=
  ⟨v, by simp, h, fun b hb => absurd hb List.not_mem_nil, nofun⟩

/-- An integer is read as it is. -/
theorem IsInteger.stoi {v : Bytes} {n : Int} (h : IsInteger v n) : stoi v = some n :=
  stoi_eq_some_iff.2 ⟨[], [], h.surrounded⟩

/-- A text with an integer inside is none itself. -/
theorem IsLoose.not_isInteger {v : Bytes} (h : IsLoose v) (n : Int) : ¬ IsInteger v n := by
  obtain ⟨blanks, rest, m, ⟨w, hv, ⟨sign, ds, rfl, hds, -⟩, hblanks, hrest⟩, hne⟩ := h
  rintro ⟨sign', ds', hv', hds', -⟩
  have hspace : v.dropWhile isSpace = v := by
    rw [hv']
    simpa using dropWhile_signText sign' hds' []
  have hbehind : v.dropWhile isSpace = signText sign ++ (ds ++ rest) := by
    rw [hv, List.dropWhile_append_of_pos hblanks, List.append_assoc, dropWhile_signText sign hds]
  have hdigits : ds ++ rest = ds' := by
    have hsign := takeSign_signText sign hds rest
    have hsign' := takeSign_signText sign' hds' []
    rw [← hbehind, hspace] at hsign
    rw [List.append_nil, ← hv', hsign] at hsign'
    exact congrArg Prod.snd hsign'
  have hnorest : rest = [] := by
    have htake := takeWhile_isDigit hds hrest
    rw [hdigits, List.takeWhile_eq_self_iff.2 hds'.2, ← hdigits] at htake
    exact List.append_right_eq_self.1 htake
  have hnoblanks : blanks = [] := by
    rw [← hspace, hbehind, List.append_assoc] at hv
    exact List.self_eq_append_left.1 hv
  exact hne.elim (fun h => h hnoblanks) fun h => h hnorest

/-- What is read without being an integer is loose. -/
theorem isInteger_of_stoi {v : Bytes} {n : Int} (h : stoi v = some n) (hv : ¬ IsLoose v) :
    IsInteger v n := by
  obtain ⟨blanks, rest, hsurrounded⟩ := stoi_eq_some_iff.1 h
  have hblanks : blanks = [] := by
    by_contra hne
    exact hv ⟨blanks, rest, n, hsurrounded, .inl hne⟩
  have hrest : rest = [] := by
    by_contra hne
    exact hv ⟨blanks, rest, n, hsurrounded, .inr hne⟩
  obtain ⟨w, hw, hinteger, -⟩ := hsurrounded
  rw [hblanks, hrest, List.nil_append, List.append_nil] at hw
  rwa [hw]

/-! ## get_int -/

namespace Config

/-- The exception of `get_int` for a value that is no integer. -/
def invalidInteger (sect key : Bytes) : ConfigError :=
  .runtimeError (ascii "Invalid integer value for " ++ sect ++ ascii "." ++ key)

/-- The conversions take the stored value `v` for an integer exactly if it is
one. -/
def ReadsStrictly (c : Config) (sect key v : Bytes) : Prop :=
  (∀ n, c.getInt sect key = .ok n ↔ IsInteger v n) ∧
  ((∀ n, ¬ IsInteger v n) → c.getInt sect key = .error (invalidInteger sect key)) ∧
  (∀ n fallback, IsInteger v n → c.getIntOr sect key fallback = n) ∧
  ∀ fallback, (∀ n, ¬ IsInteger v n) → c.getIntOr sect key fallback = fallback

theorem getInt_of_get {c : Config} {sect key v : Bytes} (h : c.get sect key = .ok v) :
    c.getInt sect key =
      match stoi v with
      | some n => .ok n
      | none => .error (invalidInteger sect key) := by
  unfold getInt
  rw [h]
  rfl

/-- **When an integer setting is read strictly**: exactly if its value is not an
integer with white space before it or other text behind it. -/
theorem readsStrictly_iff {c : Config} {sect key v : Bytes} (h : c.get sect key = .ok v) :
    ReadsStrictly c sect key v ↔ ¬ IsLoose v := by
  have hget := getInt_of_get h
  constructor
  · rintro ⟨hiff, -⟩ ⟨blanks, rest, n, hsurrounded, hne⟩
    have hloose : IsLoose v := ⟨blanks, rest, n, hsurrounded, hne⟩
    rw [stoi_eq_some_iff.2 ⟨blanks, rest, hsurrounded⟩] at hget
    exact hloose.not_isInteger n ((hiff n).1 hget)
  · intro hv
    have hnone : (∀ n, ¬ IsInteger v n) → stoi v = none := fun hnot =>
      Option.eq_none_iff_forall_ne_some.2 fun n hn => hnot n (isInteger_of_stoi hn hv)
    have hthrows : (∀ n, ¬ IsInteger v n) → c.getInt sect key = .error (invalidInteger sect key) := by
      intro hnot
      rw [hget, hnone hnot]
    have hreturns : ∀ n, IsInteger v n → c.getInt sect key = .ok n := by
      intro n hn
      rw [hget, hn.stoi]
    refine ⟨fun n => ⟨fun hok => ?_, hreturns n⟩, hthrows, fun n fallback hn => ?_,
      fun fallback hnot => ?_⟩
    · cases hstoi : stoi v with
      | none =>
          rw [hget, hstoi] at hok
          cases hok
      | some m =>
          rw [hget, hstoi] at hok
          cases hok
          exact isInteger_of_stoi hstoi hv
    · rw [getIntOr, hreturns n hn]
    · rw [getIntOr, hthrows hnot]

/-- A digit with a letter behind it. -/
theorem isLoose_letter : IsLoose (ascii "8a") :=
  ⟨[], ascii "a", 8, ⟨ascii "8", rfl, ⟨none, ascii "8", rfl, by decide, by decide, by decide⟩,
    fun b hb => absurd hb List.not_mem_nil, fun b hb => by cases hb; decide⟩, .inr (by decide)⟩

/-- A value with a letter behind the number is not read strictly. -/
theorem readsStrictly_iff_letter :
    ¬ ReadsStrictly (set {} (ascii "server") (ascii "port") (ascii "8a")) (ascii "server")
      (ascii "port") (ascii "8a") := by
  rw [readsStrictly_iff (by decide)]
  exact not_not.2 isLoose_letter

/-- `8a` is read as `8`. -/
theorem readsStrictly_counterexample :
    ¬ ∀ (c : Config) (sect key v : Bytes), c.get sect key = .ok v → ReadsStrictly c sect key v := by
  intro h
  have hstrict := h (set {} (ascii "server") (ascii "port") (ascii "8a")) (ascii "server")
    (ascii "port") (ascii "8a") (by decide)
  exact isLoose_letter.not_isInteger 8 ((hstrict.1 8).1 (by decide))

end Config

end HttpsServer
