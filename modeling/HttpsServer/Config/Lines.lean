import HttpsServer.Config
import HttpsServer.History

/-!
# HttpsServer.Config.Lines

What the lines of a configuration file say, and what reading them stores.

Every line has a `Meaning`, and a sequence of lines assigns values under the
section that is current (`assigned`), up to the first line that cannot be read
(`Readable`).  The loop of `load_from_string` stores these assignments one by
one (`readLines_stores`): each replaces the one before under the same key of
the map, which is not the pair of section and key but what `make_key` makes of
it.
-/

namespace HttpsServer.Config

/-! ## Meanings -/

inductive Meaning where
  /-- A blank line or a comment. -/
  | nothing
  | heading (sect : Bytes)
  | assignment (key value : Bytes)
  /-- A line without `=`. -/
  | unreadable
  deriving DecidableEq

/-- The cases of `parse_line`, on the trimmed line. -/
def meaningOfTrimmed (trimmed : Bytes) : Meaning :=
  if trimmed = [] ∨ trimmed.head? = some 35 ∨ trimmed.head? = some 59 then .nothing
  else if trimmed.head? = some 91 ∧ trimmed.getLast? = some 93 then
    .heading ((trimmed.drop 1).take (trimmed.length - 2))
  else
    match trimmed.idxOf? 61 with
    | none => .unreadable
    | some pos => .assignment (trim (trimmed.take pos)) (trim (trimmed.drop (pos + 1)))

/-- What a line says. -/
def meaning (line : Bytes) : Meaning := meaningOfTrimmed (trim line)

/-- A value that a line assigns in a section. -/
structure Assignment where
  sect : Bytes
  key : Bytes
  value : Bytes
  deriving DecidableEq

namespace Assignment

/-- The setting that is assigned. -/
def pair (a : Assignment) : Bytes × Bytes := (a.sect, a.key)

/-- The key of the map that stands for it. -/
def flatKey (a : Assignment) : Bytes := makeKey a.sect a.key

end Assignment

/-- What lines assign when `current` is the section before them, up to the
first that cannot be read. -/
def assigned (current : Bytes) : List Meaning → List Assignment
  | [] => []
  | .nothing :: ms => assigned current ms
  | .heading sect :: ms => assigned sect ms
  | .assignment key value :: ms =>
    if current = [] then [] else ⟨current, key, value⟩ :: assigned current ms
  | .unreadable :: _ => []

/-- Every line can be read: it has a `=` where one is needed, and a section. -/
def Readable (current : Bytes) : List Meaning → Prop
  | [] => True
  | .nothing :: ms => Readable current ms
  | .heading sect :: ms => Readable sect ms
  | .assignment _ _ :: ms => current ≠ [] ∧ Readable current ms
  | .unreadable :: _ => False

instance decidableReadable (current : Bytes) : ∀ ms, Decidable (Readable current ms)
  | [] => isTrue trivial
  | .nothing :: ms => decidableReadable current ms
  | .heading sect :: ms => decidableReadable sect ms
  | .assignment _ _ :: ms =>
      have := decidableReadable current ms
      inferInstanceAs (Decidable (_ ∧ _))
  | .unreadable :: _ => isFalse not_false

/-! ## Reading -/

/-- `parse_line` on what the line says. -/
def parseMeaning (c : Config) (current : Bytes) (lineNumber : Nat) :
    Meaning → Except ConfigError (Config × Bytes)
  | .nothing => .ok (c, current)
  | .heading sect => .ok (c, sect)
  | .assignment key value =>
    if current = [] then
      .error (.runtimeError
        (ascii "Configuration key without section at line " ++ toDecimal lineNumber))
    else .ok (c.set current key value, current)
  | .unreadable =>
    .error (.runtimeError (ascii "Invalid configuration line at " ++ toDecimal lineNumber))

theorem parseLine_eq (c : Config) (line current : Bytes) (lineNumber : Nat) :
    c.parseLine line current lineNumber = c.parseMeaning current lineNumber (meaning line) := by
  unfold parseLine meaning meaningOfTrimmed
  dsimp only
  split
  · rfl
  · split
    · rfl
    · cases (trim line).idxOf? 61 <;> rfl

/-- Lines that say the same are read the same. -/
theorem readLines_congr {lines lines' : List Bytes} (h : lines.map meaning = lines'.map meaning)
    (c : Config) (current : Bytes) (lineNumber : Nat) :
    c.readLines current lineNumber lines = c.readLines current lineNumber lines' := by
  induction lines generalizing lines' c current lineNumber with
  | nil =>
      rw [List.map_nil, eq_comm, List.map_eq_nil_iff] at h
      rw [h]
  | cons line lines ih =>
      obtain ⟨line', lines', rfl, hline, hlines⟩ := List.map_eq_cons_iff.1 h.symm
      rw [readLines, readLines, parseLine_eq, parseLine_eq, hline]
      cases c.parseMeaning current (lineNumber + 1) (meaning line) with
      | error e => rfl
      | ok next => exact ih hlines.symm next.1 next.2 (lineNumber + 1)

/-- The configuration holds the last value assigned under every key of its
map. -/
def Holds (c : Config) (as : List Assignment) : Prop :=
  Stores Assignment.flatKey Assignment.value c.values as

theorem holds_clear (c : Config) : c.clear.Holds [] := Stores.empty

/-- **The reading loop** stores what the lines assign, and throws exactly where
one of them cannot be read. -/
theorem readLines_stores {c : Config} {before : List Assignment} (h : c.Holds before)
    (current : Bytes) (lineNumber : Nat) (lines : List Bytes) :
    (c.readLines current lineNumber lines).1.Holds
        (before ++ assigned current (lines.map meaning)) ∧
      ((c.readLines current lineNumber lines).2 = none ↔
        Readable current (lines.map meaning)) := by
  induction lines generalizing c before current lineNumber with
  | nil =>
      rw [List.map_nil, assigned, List.append_nil]
      exact ⟨h, by simp [readLines, Readable]⟩
  | cons line lines ih =>
      rw [readLines, parseLine_eq, List.map_cons]
      cases meaning line with
      | nothing => exact ih h current (lineNumber + 1)
      | heading sect => exact ih h sect (lineNumber + 1)
      | assignment key value =>
          by_cases hcurrent : current = []
          · rw [parseMeaning, if_pos hcurrent, assigned, if_pos hcurrent, List.append_nil]
            exact ⟨h, by simp [Readable, hcurrent]⟩
          · have hset : (c.set current key value).Holds (before ++ [⟨current, key, value⟩]) :=
              Stores.insert h ⟨current, key, value⟩
            obtain ⟨hholds, hthrows⟩ := ih hset current (lineNumber + 1)
            rw [parseMeaning, if_neg hcurrent, assigned, if_neg hcurrent]
            rw [List.append_assoc, List.singleton_append] at hholds
            exact ⟨hholds, by simpa [Readable, hcurrent] using hthrows⟩
      | unreadable =>
          rw [parseMeaning, assigned, List.append_nil]
          exact ⟨h, by simp [Readable]⟩

/-- The meanings of the lines of a text. -/
def meanings (contents : Bytes) : List Meaning := (getLines contents).map meaning

/-- What `load_from_string` leaves: the assignments of the text up to the first
line that cannot be read, and nothing that was there before. -/
theorem loadFromString_stores (c : Config) (contents : Bytes) :
    (c.loadFromString contents).1.Holds (assigned [] (meanings contents)) ∧
      ((c.loadFromString contents).2 = none ↔ Readable [] (meanings contents)) :=
  readLines_stores (holds_clear c) [] 0 (getLines contents)

/-! ## Keys of the map -/

/-- The section of `q` goes on where the section of `p` ends and a dot follows,
and the key of `p` makes up for the rest. -/
def Nested (p q : Bytes × Bytes) : Prop := ∃ x, q.1 = p.1 ++ 46 :: x ∧ p.2 = x ++ 46 :: q.2

/-- The longer section has a dot. -/
theorem Nested.dot {p q : Bytes × Bytes} (h : Nested p q) : 46 ∈ q.1 := by
  obtain ⟨x, hx, -⟩ := h
  rw [hx]
  exact List.mem_append_right p.1 List.mem_cons_self

/-- **When `make_key` builds the same key** for two settings. -/
theorem makeKey_eq_iff {p q : Bytes × Bytes} :
    makeKey p.1 p.2 = makeKey q.1 q.2 ↔ p = q ∨ Nested p q ∨ Nested q p := by
  obtain ⟨s, k⟩ := p
  obtain ⟨s', k'⟩ := q
  simp only [makeKey, Nested, List.append_eq_append_iff, List.cons_eq_append_iff,
    Prod.mk.injEq]
  constructor
  · rintro (⟨x, rfl, ⟨rfl, h⟩ | ⟨y, rfl, rfl⟩⟩ | ⟨x, rfl, ⟨rfl, h⟩ | ⟨y, rfl, rfl⟩⟩)
    · exact .inl ⟨(List.append_nil s).symm, (List.cons.inj h).2.symm⟩
    · exact .inr (.inl ⟨y, rfl, rfl⟩)
    · exact .inl ⟨List.append_nil s', (List.cons.inj h).2⟩
    · exact .inr (.inr ⟨y, rfl, rfl⟩)
  · rintro (⟨rfl, rfl⟩ | ⟨x, rfl, rfl⟩ | ⟨x, rfl, rfl⟩)
    · exact .inl ⟨[], (List.append_nil s).symm, .inl ⟨rfl, rfl⟩⟩
    · exact .inl ⟨46 :: x, rfl, .inr ⟨x, rfl, rfl⟩⟩
    · exact .inr ⟨46 :: x, rfl, .inr ⟨x, rfl, rfl⟩⟩

/-! ## Lookups -/

section Lookups

variable {c : Config} {as : List Assignment} (h : c.Holds as)

include h

theorem find_of_holds (sect key : Bytes) :
    c.find sect key =
      (lastUnder Assignment.flatKey (makeKey sect key) as).map Assignment.value :=
  h (makeKey sect key)

theorem contains_of_holds (sect key : Bytes) :
    c.contains sect key = true ↔ makeKey sect key ∈ as.map Assignment.flatKey := by
  rw [contains_eq, find_of_holds h, Option.isSome_map, isSome_lastUnder]

theorem size_of_holds : c.size = (as.map Assignment.flatKey).dedup.length := Stores.length h

end Lookups

end HttpsServer.Config
