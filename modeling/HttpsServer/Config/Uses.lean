import HttpsServer.Config.Failure

/-!
# HttpsServer.Config.Uses

A configuration over its whole use.

Whatever calls of `set`, `clear`, `load_from_string` and `load` it has been
through, failed ones among them, it is a map from the keys that `make_key`
builds to the last value assigned under them since it was last cleared
(`answers_after`).
-/

namespace HttpsServer.Config

/-- A call that may change a configuration; for `load` with what the file
holds, or `none` when it cannot be opened. -/
inductive Change where
  | set (sect key value : Bytes)
  | clear
  | loadFromString (contents : Bytes)
  | load (filename : Bytes) (file : Option Bytes)

/-- The configuration after a call, with the exception that ends it. -/
def change (c : Config) : Change → Config × Option ConfigError
  | .set sect key value => (c.set sect key value, none)
  | .clear => (c.clear, none)
  | .loadFromString contents => c.loadFromString contents
  | .load filename file => c.load filename file

/-- A new configuration after some calls. -/
def after (changes : List Change) : Config := changes.foldl (fun c ch => (c.change ch).1) {}

namespace Change

/-- What reading a text does: it clears the map, and assigns what the lines say
up to the first that cannot be read. -/
def editsOf (contents : Bytes) : List (Edit Assignment) :=
  .clear :: (assigned [] (meanings contents)).map .add

/-- What a call does to the assignments. -/
def edits : Change → List (Edit Assignment)
  | set sect key value => [.add ⟨sect, key, value⟩]
  | clear => [.clear]
  | loadFromString contents => editsOf contents
  | load _ none => []
  | load _ (some contents) => editsOf contents

/-- The call meets nothing that it cannot read. -/
def Accepted : Change → Prop
  | set _ _ _ | clear => True
  | loadFromString contents => Readable [] (meanings contents)
  | load _ file => ∃ contents, file = some contents ∧ Readable [] (meanings contents)

/-- The exception names the first line of a text that cannot be read. -/
def NamesLine (contents : Bytes) (e : ConfigError) : Prop :=
  ∃ i, Readable [] ((meanings contents).take i) ∧
    ¬ Readable [] ((meanings contents).take (i + 1)) ∧ IsErrorOfLine e (i + 1)

/-- The exception says what has gone wrong. -/
def Explains (e : ConfigError) : Change → Prop
  | set _ _ _ | clear => False
  | loadFromString contents => NamesLine contents e
  | load filename none =>
    e = .runtimeError (ascii "Unable to open configuration file: " ++ filename)
  | load _ (some contents) => NamesLine contents e

end Change

theorem entries_editsOf (before : List (Edit Assignment)) (contents : Bytes) :
    entries (before ++ Change.editsOf contents) = assigned [] (meanings contents) := by
  rw [entries_append, Change.editsOf, List.all_cons, Edit.keeps, Bool.false_and,
    if_neg Bool.false_ne_true, List.nil_append]
  exact entries_adds _

/-- **Step**: a call does to the map what its edits say. -/
theorem Holds.change {c : Config} {before : List (Edit Assignment)} (h : c.Holds (entries before))
    (ch : Change) : (c.change ch).1.Holds (entries (before ++ ch.edits)) := by
  cases ch with
  | set sect key value =>
      have hset : (c.set sect key value).Holds (entries before ++ [⟨sect, key, value⟩]) :=
        Stores.insert h ⟨sect, key, value⟩
      rwa [Change.edits, entries, List.foldl_append]
  | clear =>
      rw [Change.edits, entries, List.foldl_append]
      exact holds_clear c
  | loadFromString contents =>
      rw [Change.edits, entries_editsOf]
      exact (loadFromString_stores c contents).1
  | load filename file =>
      cases file with
      | none =>
          rw [Change.edits, List.append_nil]
          exact h
      | some contents =>
          rw [Change.edits, entries_editsOf]
          exact (loadFromString_stores c contents).1

/-- **Runs**: so do any number of calls. -/
theorem holds_after (changes : List Change) :
    (after changes).Holds (entries (changes.flatMap Change.edits)) := by
  induction changes using List.reverseRecOn with
  | nil => exact Stores.empty
  | append_singleton changes ch ih =>
      rw [after, List.foldl_append, List.flatMap_append, List.flatMap_singleton]
      exact ih.change ch

/-! ## Answers -/

/-- Every question is answered from the last assignment under its key. -/
structure Answers (c : Config) (as : List Assignment) : Prop where
  contains : ∀ sect key, c.contains sect key = true ↔ makeKey sect key ∈ as.map Assignment.flatKey
  get : ∀ sect key, c.get sect key =
    match lastUnder Assignment.flatKey (makeKey sect key) as with
    | some a => .ok a.value
    | none => .error (.outOfRange (ascii "Missing configuration value"))
  getOr : ∀ sect key fallback, c.getOr sect key fallback =
    ((lastUnder Assignment.flatKey (makeKey sect key) as).map Assignment.value).getD fallback
  size : c.size = (as.map Assignment.flatKey).dedup.length

theorem Holds.answers {c : Config} {as : List Assignment} (h : c.Holds as) : c.Answers as where
  contains := contains_of_holds h
  get sect key := by
    rw [Config.get, find_of_holds h]
    cases lastUnder Assignment.flatKey (makeKey sect key) as <;> rfl
  getOr sect key fallback := by
    rw [Config.getOr, Config.get, find_of_holds h]
    cases lastUnder Assignment.flatKey (makeKey sect key) as <;> rfl
  size := size_of_holds h

/-- A text that is read to its end, or an exception for the first line that
cannot be. -/
theorem loadFromString_outcome (c : Config) (contents : Bytes) :
    ((c.loadFromString contents).2 = none ↔ Readable [] (meanings contents)) ∧
      ∀ e, (c.loadFromString contents).2 = some e → Change.NamesLine contents e :=
  ⟨(loadFromString_stores c contents).2, fun _ he => loadFromString_error he⟩

theorem change_outcome (c : Config) (ch : Change) :
    ((c.change ch).2 = none ↔ ch.Accepted) ∧ ∀ e, (c.change ch).2 = some e → ch.Explains e := by
  cases ch with
  | set sect key value => exact ⟨⟨fun _ => trivial, fun _ => rfl⟩, fun e he => absurd he.symm (Option.some_ne_none e)⟩
  | clear => exact ⟨⟨fun _ => trivial, fun _ => rfl⟩, fun e he => absurd he.symm (Option.some_ne_none e)⟩
  | loadFromString contents => exact loadFromString_outcome c contents
  | load filename file =>
      cases file with
      | none =>
          refine ⟨⟨fun h => absurd h (Option.some_ne_none _), ?_⟩, fun e he => (Option.some.inj he).symm⟩
          rintro ⟨contents, hfile, -⟩
          cases hfile
      | some contents =>
          obtain ⟨hnone, hsome⟩ := loadFromString_outcome c contents
          refine ⟨hnone.trans ⟨fun h => ⟨contents, rfl, h⟩, ?_⟩, hsome⟩
          rintro ⟨contents', hfile, h⟩
          rwa [Option.some.inj hfile]

/-- **A configuration is the map of its assignments.**  After any calls, failed
ones among them, every question is answered from the last assignment under the
key that `make_key` builds, of those made since the map was last cleared; and
the next call throws exactly where it meets something that it cannot read, which
its exception names. -/
theorem answers_after (changes : List Change) :
    (after changes).Answers (entries (changes.flatMap Change.edits)) ∧
      ∀ ch, (((after changes).change ch).2 = none ↔ ch.Accepted) ∧
        ∀ e, ((after changes).change ch).2 = some e → ch.Explains e :=
  ⟨(holds_after changes).answers, change_outcome _⟩

end HttpsServer.Config
