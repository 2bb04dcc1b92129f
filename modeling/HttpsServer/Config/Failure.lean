import HttpsServer.Config.Lines

/-!
# HttpsServer.Config.Failure

What a failed load leaves behind.

`load_from_string` clears the map first and stores each line as it comes to it,
so an exception leaves the assignments of the lines before the bad one and none
of the old ones (`loadFromString_stores`).  That is no change only where the
configuration held just these already.  The exception itself names the bad line
(`loadFromString_error`).
-/

namespace HttpsServer.Config

/-! ## The exception -/

/-- The exceptions of the line with this number. -/
def IsErrorOfLine (e : ConfigError) (lineNumber : Nat) : Prop :=
  e = .runtimeError (ascii "Invalid configuration line at " ++ toDecimal lineNumber) ∨
  e = .runtimeError (ascii "Configuration key without section at line " ++ toDecimal lineNumber)

theorem readLines_error {c : Config} {current : Bytes} {lineNumber : Nat} {lines : List Bytes}
    {e : ConfigError} (h : (c.readLines current lineNumber lines).2 = some e) :
    ∃ i, Readable current ((lines.map meaning).take i) ∧
      ¬ Readable current ((lines.map meaning).take (i + 1)) ∧
      IsErrorOfLine e (lineNumber + i + 1) := by
  induction lines generalizing c current lineNumber with
  | nil => cases h
  | cons line lines ih =>
      have hnext : ∀ {n i : Nat}, n + 1 + i + 1 = n + (i + 1) + 1 := by omega
      rw [readLines, parseLine_eq] at h
      rw [List.map_cons]
      generalize meaning line = m at h ⊢
      cases m with
      | nothing =>
          obtain ⟨i, hbefore, hbad, he⟩ := ih h
          exact ⟨i + 1, hbefore, hbad, hnext ▸ he⟩
      | heading sect =>
          obtain ⟨i, hbefore, hbad, he⟩ := ih h
          exact ⟨i + 1, hbefore, hbad, hnext ▸ he⟩
      | assignment key value =>
          by_cases hcurrent : current = []
          · rw [parseMeaning, if_pos hcurrent] at h
            exact ⟨0, trivial, fun hread => hread.1 hcurrent, .inr (Option.some.inj h).symm⟩
          · rw [parseMeaning, if_neg hcurrent] at h
            obtain ⟨i, hbefore, hbad, he⟩ := ih h
            exact ⟨i + 1, ⟨hcurrent, hbefore⟩, fun hread => hbad hread.2, hnext ▸ he⟩
      | unreadable => exact ⟨0, trivial, not_false, .inl (Option.some.inj h).symm⟩

/-- **The exception names the first line that cannot be read.** -/
theorem loadFromString_error {c : Config} {contents : Bytes} {e : ConfigError}
    (h : (c.loadFromString contents).2 = some e) :
    ∃ i, Readable [] ((meanings contents).take i) ∧ ¬ Readable [] ((meanings contents).take (i + 1)) ∧
      IsErrorOfLine e (i + 1) := by
  obtain ⟨i, hbefore, hbad, he⟩ := readLines_error h
  exact ⟨i, hbefore, hbad, (Nat.zero_add i) ▸ he⟩

/-! ## The state behind it -/

/-- The two configurations give every answer alike. -/
def AnswersAlike (c d : Config) : Prop :=
  (∀ sect key, c.contains sect key = d.contains sect key) ∧
  (∀ sect key, c.get sect key = d.get sect key) ∧ c.size = d.size

/-- Every key of the map can be asked for, so configurations with the same
answers hold the same assignments. -/
theorem Holds.of_answersAlike {c d : Config} {as : List Assignment} (h : c.Holds as)
    (hsame : AnswersAlike c d) : d.Holds as := by
  intro k
  by_cases hk : ∃ sect key, k = makeKey sect key
  · obtain ⟨sect, key, rfl⟩ := hk
    have hfind : c.find sect key = d.find sect key := get_eq_get_iff.1 (hsame.2.1 sect key)
    exact hfind.symm.trans (h _)
  · have hnone : ∀ e : Config, e.values.lookup k = none := fun e =>
      AList.lookup_eq_none.2 fun hmem => hk (e.made k hmem)
    rw [hnone d, ← h k, hnone c]

theorem Holds.answersAlike {c d : Config} {as : List Assignment} (hc : c.Holds as)
    (hd : d.Holds as) : AnswersAlike c d := by
  have hfind : ∀ sect key, c.find sect key = d.find sect key := fun sect key =>
    (find_of_holds hc sect key).trans (find_of_holds hd sect key).symm
  refine ⟨fun sect key => ?_, fun sect key => get_eq_get_iff.2 (hfind sect key), ?_⟩
  · rw [contains_eq, contains_eq, hfind]
  · rw [size_of_holds hc, size_of_holds hd]

/-- **When a failed load changes nothing**: if all lines can be read, so that
there is no failure, or if the configuration held exactly what the lines before
the first bad one assign. -/
theorem failed_load_unchanged_iff (c : Config) (contents : Bytes) :
    ((c.loadFromString contents).2 ≠ none → AnswersAlike (c.loadFromString contents).1 c) ↔
      Readable [] (meanings contents) ∨ c.Holds (assigned [] (meanings contents)) := by
  obtain ⟨hholds, hreturns⟩ := c.loadFromString_stores contents
  constructor
  · intro h
    by_cases hreadable : Readable [] (meanings contents)
    · exact .inl hreadable
    · exact .inr (hholds.of_answersAlike (h (mt hreturns.1 hreadable)))
  · rintro (hreadable | hsame) hthrows
    · exact absurd (hreturns.2 hreadable) hthrows
    · exact hholds.answersAlike hsame

/-- One line without `=` empties a configuration. -/
theorem failed_load_counterexample :
    ¬ ∀ (c : Config) (contents : Bytes), (c.loadFromString contents).2 ≠ none →
      AnswersAlike (c.loadFromString contents).1 c := by
  intro h
  have hsize := (h (set {} (ascii "server") (ascii "port") (ascii "8443")) (ascii "port\n")
    (by decide)).2.2
  exact absurd hsize (by decide)

end HttpsServer.Config
