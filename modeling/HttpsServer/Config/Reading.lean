import HttpsServer.Code
import HttpsServer.Config.Lines

/-!
# HttpsServer.Config.Reading

Reading an INI file as it is meant to be written.

`IsLine` is the format, line by line, with what each line says; a text writes
its lines with either line end after each (`Writes`).  Trimming makes the
carriage return disappear (`meaning_append_CR`), so both line ends read alike;
and where no section has a dot, the keys of the map are the pairs of section
and key (`makeKey_inj`).
-/

namespace HttpsServer.Config

/-! ## The format -/

/-- The bytes are blanks. -/
def Blanks (s : Bytes) : Prop := ∀ b ∈ s, isBlank b = true

/-- A line of the format, and what it says. -/
inductive IsLine : Bytes → Meaning → Prop
  | blank {pad : Bytes} (hpad : Blanks pad) : IsLine pad .nothing
  | comment {pad : Bytes} (hpad : Blanks pad) {mark : UInt8} (hmark : mark = 35 ∨ mark = 59)
      (text : Bytes) : IsLine (pad ++ mark :: text) .nothing
  | heading {before sect after : Bytes} (hbefore : Blanks before) (hafter : Blanks after)
      (hne : sect ≠ []) : IsLine (before ++ 91 :: (sect ++ 93 :: after)) (.heading sect)
  | entry {key value : Bytes} (hkey : 61 ∉ key) (hhash : (trim key).head? ≠ some 35)
      (hsemicolon : (trim key).head? ≠ some 59) (hbracket : (trim key).head? ≠ some 91) :
      IsLine (key ++ 61 :: value) (.assignment (trim key) (trim value))

/-- A line with one of the two line ends. -/
inductive Ended (line : Bytes) : Bytes → Prop
  | lf : LF ∉ line → Ended line (line ++ [LF])
  | crlf : LF ∉ line → Ended line (line ++ [CR, LF])

/-- The text has these lines, each with a line end of its own. -/
def Writes (lines : List Bytes) (text : Bytes) : Prop := Spells Ended lines text

/-- The first line that says something is a section line. -/
def Headed (ms : List Meaning) : Prop :=
  ∀ m, ms.find? (fun m => m ≠ .nothing) = some m → ∃ sect, m = .heading sect

/-- A file of the format, with what it assigns. -/
def IsFile (text : Bytes) (as : List Assignment) : Prop :=
  ∃ lines ms, List.Forall₂ IsLine lines ms ∧ Headed ms ∧ Writes lines text ∧ as = assigned [] ms

/-! ## Lines -/

/-- An entry, trimmed: a trimmed line is cut at the first `=` into parts that
are trimmed once more. -/
theorem meaning_entry {key value : Bytes} (hkey : 61 ∉ key) (hhash : (trim key).head? ≠ some 35)
    (hsemicolon : (trim key).head? ≠ some 59) (hbracket : (trim key).head? ≠ some 91) :
    meaning (key ++ 61 :: value) = .assignment (trim key) (trim value) := by
  have htrim : trim (key ++ 61 :: value) = key.dropWhile isBlank ++ 61 :: value.rdropWhile isBlank :=
    strip_append_cons key rfl value
  have hhead : ∀ b, b ≠ 61 → (trim key).head? ≠ some b →
      (key.dropWhile isBlank ++ 61 :: value.rdropWhile isBlank).head? ≠ some b := by
    intro b hb hne
    rw [trim, trimBlanks, head?_strip] at hne
    cases h : key.dropWhile isBlank with
    | nil => simpa using Ne.symm hb
    | cons x l => simpa [h] using hne
  have hcut : (key.dropWhile isBlank ++ 61 :: value.rdropWhile isBlank).idxOf? 61 =
      some (key.dropWhile isBlank).length :=
    idxOf?_append_cons fun hmem => hkey ((List.dropWhile_sublist isBlank).subset hmem)
  have hkeyText : trim (key.dropWhile isBlank) = trim key := strip_dropWhile isBlank key
  have hvalueText : trim (value.rdropWhile isBlank) = trim value := strip_rdropWhile isBlank value
  rw [meaning, htrim, meaningOfTrimmed, if_neg, if_neg, hcut]
  · simp only [List.take_left, hkeyText]
    rw [← List.singleton_append, ← List.append_assoc, List.drop_left' (by simp), hvalueText]
  · exact fun h => hhead 91 (by decide) hbracket h.1
  · rintro (h | h | h)
    · simp at h
    · exact hhead 35 (by decide) hhash h
    · exact hhead 59 (by decide) hsemicolon h

/-- **A line of the format says what it should.** -/
theorem meaning_of_isLine {line : Bytes} {m : Meaning} (h : IsLine line m) : meaning line = m := by
  cases h with
  | blank hpad => rw [meaning, trim, trimBlanks, strip_eq_nil hpad]; rfl
  | @comment pad hpad mark hmark text =>
      have hblank : isBlank mark = false := by rcases hmark with rfl | rfl <;> rfl
      rw [meaning, trim, trimBlanks, strip_append_cons pad hblank, List.dropWhile_eq_nil_iff.2 hpad,
        List.nil_append, meaningOfTrimmed, if_pos]
      rcases hmark with rfl | rfl <;> simp
  | @heading before sect after hbefore hafter hne =>
      have htrim : trim (before ++ 91 :: (sect ++ 93 :: after)) = 91 :: (sect ++ [93]) := by
        rw [trim, trimBlanks, strip_append_cons before rfl, List.dropWhile_eq_nil_iff.2 hbefore,
          rdropWhile_append_cons sect rfl, List.rdropWhile_eq_nil_iff.2 hafter, List.nil_append]
      have hlast : (91 :: (sect ++ [93])).getLast? = some (93 : UInt8) := by
        rw [← List.cons_append, List.getLast?_concat]
      rw [meaning, htrim, meaningOfTrimmed, if_neg (by simp), if_pos ⟨rfl, hlast⟩]
      simp
  | entry hkey hhash hsemicolon hbracket =>
      exact meaning_entry hkey hhash hsemicolon hbracket

theorem meanings_of_isLine {lines : List Bytes} {ms : List Meaning}
    (h : List.Forall₂ IsLine lines ms) : lines.map meaning = ms := by
  induction h with
  | nil => rfl
  | cons hline _ ih => rw [List.map_cons, meaning_of_isLine hline, ih]

/-! ## Line ends -/

/-- A carriage return at the end of a line is trimmed off. -/
theorem meaning_append_CR (line : Bytes) : meaning (line ++ [CR]) = meaning line := by
  have hblank : ∀ b ∈ [CR], isBlank b = true := List.forall_mem_singleton.2 rfl
  have htrim : trim (line ++ [CR]) = trim line := strip_append_pad line hblank
  rw [meaning, meaning, htrim]

theorem getLines_append {line : Bytes} (h : LF ∉ line) (rest : Bytes) :
    getLines (line ++ LF :: rest) = line :: getLines rest := by
  induction line with
  | nil => rw [List.nil_append, getLines, if_pos rfl]
  | cons b line ih =>
      obtain ⟨hb, hline⟩ := not_or.1 (mt List.mem_cons.2 h)
      rw [List.cons_append, getLines, if_neg (Ne.symm hb), ih hline]

/-- Reading takes a line off the front of a text, with either line end. -/
theorem meanings_append {line w : Bytes} (h : Ended line w) (rest : Bytes) :
    meanings (w ++ rest) = [meaning line] ++ meanings rest := by
  cases h with
  | lf hLF =>
      rw [meanings, List.append_assoc, List.singleton_append, getLines_append hLF]
      rfl
  | crlf hLF =>
      have hCR : LF ∉ line ++ [CR] := by simpa [hLF] using CR_ne_LF.symm
      have hsplit : line ++ [CR, LF] ++ rest = line ++ [CR] ++ LF :: rest := by simp
      rw [meanings, hsplit, getLines_append hCR, List.map_cons, meaning_append_CR]
      rfl

/-- Whatever the line ends are, the lines of a text say what was written. -/
theorem meanings_of_writes {lines : List Bytes} {text : Bytes} (h : Writes lines text) :
    meanings text = lines.map meaning := by
  rw [h.decode (d := meanings) (f := fun line => [meaning line]) rfl
    fun _ _ rest hw => meanings_append hw rest]
  exact List.map_eq_flatMap.symm

/-! ## Sections -/

/-- Sections with a name, and lines that can be read once there is a section,
make a file that can be read. -/
theorem readable_of_headed {current : Bytes} {ms : List Meaning}
    (hhead : current ≠ [] ∨ Headed ms) (hsect : .heading [] ∉ ms) (hread : .unreadable ∉ ms) :
    Readable current ms := by
  induction ms generalizing current with
  | nil => trivial
  | cons m ms ih =>
      have hsect' := fun h => hsect (List.mem_cons_of_mem m h)
      have hread' := fun h => hread (List.mem_cons_of_mem m h)
      cases m with
      | nothing => exact ih hhead hsect' hread'
      | heading sect =>
          refine ih (.inl ?_) hsect' hread'
          rintro rfl
          exact hsect List.mem_cons_self
      | assignment key value =>
          -- an assignment is no heading: there is a section before it
          have hcurrent : current ≠ [] := by
            refine hhead.resolve_right fun h => ?_
            obtain ⟨sect, hfirst⟩ := h _ rfl
            cases hfirst
          exact ⟨hcurrent, ih (.inl hcurrent) hsect' hread'⟩
      | unreadable => exact hread List.mem_cons_self

/-- The lines of the format can be read. -/
theorem forall_of_isLine {lines : List Bytes} {ms : List Meaning}
    (h : List.Forall₂ IsLine lines ms) : .heading [] ∉ ms ∧ .unreadable ∉ ms := by
  induction h with
  | nil => exact ⟨List.not_mem_nil, List.not_mem_nil⟩
  | cons hline _ ih =>
      simp only [List.mem_cons, not_or]
      refine ⟨⟨?_, ih.1⟩, ?_, ih.2⟩
      · rintro rfl
        cases hline with
        | heading _ _ hne => exact hne rfl
      · rintro rfl
        cases hline

/-- A file of the format is read to its end. -/
theorem loadFromString_of_isFile {text : Bytes} {as : List Assignment} (h : IsFile text as)
    (c : Config) : (c.loadFromString text).2 = none ∧ (c.loadFromString text).1.Holds as := by
  obtain ⟨lines, ms, hlines, hhead, htext, rfl⟩ := h
  obtain ⟨hholds, hthrows⟩ := c.loadFromString_stores text
  rw [meanings_of_writes htext, meanings_of_isLine hlines] at hholds hthrows
  obtain ⟨hsect, hread⟩ := forall_of_isLine hlines
  exact ⟨hthrows.2 (readable_of_headed (.inr hhead) hsect hread), hholds⟩

/-- Every assignment is made in a section that the file has. -/
theorem heading_of_mem_assigned {a : Assignment} {current : Bytes} {ms : List Meaning}
    (h : a ∈ assigned current ms) : a.sect = current ∧ current ≠ [] ∨ .heading a.sect ∈ ms := by
  induction ms generalizing current with
  | nil => cases h
  | cons m ms ih =>
      cases m with
      | nothing => exact (ih h).imp_right (List.mem_cons_of_mem _)
      | heading sect =>
          refine .inr ?_
          rcases ih h with ⟨hsect, -⟩ | hmem
          · rw [hsect]
            exact List.mem_cons_self
          · exact List.mem_cons_of_mem _ hmem
      | assignment key value =>
          rw [assigned] at h
          split at h
          · cases h
          · next hcurrent =>
            rcases List.mem_cons.1 h with rfl | hmem
            · exact .inl ⟨rfl, hcurrent⟩
            · exact (ih hmem).imp_right (List.mem_cons_of_mem _)
      | unreadable => cases h

/-! ## Keys -/

/-- Where the sections have no dot, the first dot is the one that `make_key`
wrote. -/
theorem makeKey_inj {sect sect' key key' : Bytes} (h : 46 ∉ sect) (h' : 46 ∉ sect') :
    makeKey sect key = makeKey sect' key' ↔ (sect, key) = (sect', key') := by
  refine (makeKey_eq_iff (p := (sect, key)) (q := (sect', key'))).trans
    ⟨fun heq => ?_, fun heq => .inl heq⟩
  rcases heq with heq | hnested | hnested
  · exact heq
  · exact absurd hnested.dot h'
  · exact absurd hnested.dot h

section Dotless

variable {c : Config} {as : List Assignment} (h : c.Holds as) (hdotless : ∀ a ∈ as, 46 ∉ a.sect)

include h hdotless

/-- Without dots in the sections, a lookup finds the last assignment of the
setting. -/
theorem find_of_dotless {sect : Bytes} (hdot : 46 ∉ sect) (key : Bytes) :
    c.find sect key = (lastUnder Assignment.pair (sect, key) as).map Assignment.value := by
  rw [find_of_holds h]
  congr 1
  exact lastUnder_congr _ fun a ha => makeKey_inj (hdotless a ha) hdot

theorem get_of_dotless {sect : Bytes} (hdot : 46 ∉ sect) (key : Bytes) :
    c.get sect key =
      match lastUnder Assignment.pair (sect, key) as with
      | some a => .ok a.value
      | none => .error (.outOfRange (ascii "Missing configuration value")) := by
  rw [get, find_of_dotless h hdotless hdot]
  cases lastUnder Assignment.pair (sect, key) as <;> rfl

theorem contains_of_dotless {sect : Bytes} (hdot : 46 ∉ sect) (key : Bytes) :
    c.contains sect key = true ↔ (sect, key) ∈ as.map Assignment.pair := by
  rw [contains_eq, find_of_dotless h hdotless hdot, Option.isSome_map, isSome_lastUnder]

/-- Each setting counts once. -/
theorem size_of_dotless : c.size = (as.map Assignment.pair).dedup.length := by
  rw [size_of_holds h]
  exact length_dedup_rename Assignment.pair (fun p => makeKey p.1 p.2) fun a ha b hb hkey =>
    (makeKey_inj (hdotless a ha) (hdotless b hb)).1 hkey

end Dotless

/-- **INI reading**: a file of the format is read without an exception, with
either line end after each line, and afterwards the configuration answers as
the last assignment of each setting says; it has nothing else. -/
theorem loadFromString_of_writes {lines : List Bytes} {ms : List Meaning} {text : Bytes}
    (hlines : List.Forall₂ IsLine lines ms) (hdots : ∀ sect, .heading sect ∈ ms → 46 ∉ sect)
    (hhead : Headed ms) (htext : Writes lines text) (c : Config) :
    (c.loadFromString text).2 = none ∧
    (∀ sect key, 46 ∉ sect →
      (c.loadFromString text).1.get sect key =
        match lastUnder Assignment.pair (sect, key) (assigned [] ms) with
        | some a => .ok a.value
        | none => .error (.outOfRange (ascii "Missing configuration value"))) ∧
    (∀ sect key, 46 ∉ sect →
      ((c.loadFromString text).1.contains sect key = true ↔
        (sect, key) ∈ (assigned [] ms).map Assignment.pair)) ∧
    (c.loadFromString text).1.size = ((assigned [] ms).map Assignment.pair).dedup.length ∧
    (∀ sect key, (c.loadFromString text).1.contains sect key = true →
      ∃ a ∈ assigned [] ms, makeKey a.sect a.key = makeKey sect key) ∧
    ∀ text', Writes lines text' → c.loadFromString text' = c.loadFromString text := by
  obtain ⟨hreturns, hholds⟩ := loadFromString_of_isFile ⟨lines, ms, hlines, hhead, htext, rfl⟩ c
  have hdotless : ∀ a ∈ assigned [] ms, 46 ∉ a.sect := fun a ha =>
    hdots a.sect ((heading_of_mem_assigned ha).resolve_left fun h => h.2 rfl)
  refine ⟨hreturns, fun sect key hdot => get_of_dotless hholds hdotless hdot key,
    fun sect key hdot => contains_of_dotless hholds hdotless hdot key,
    size_of_dotless hholds hdotless, fun sect key hcontains => ?_, fun text' htext' => ?_⟩
  · exact List.mem_map.1 ((contains_of_holds hholds sect key).1 hcontains)
  · refine readLines_congr ?_ _ _ _
    exact (meanings_of_writes htext').trans (meanings_of_writes htext).symm

/-- A section that is opened twice, in a file with both line ends. -/
theorem loadFromString_of_writes_reopened :
    (loadFromString {} ((ascii "[a]" ++ crlf) ++ ((ascii "k = 1" ++ [LF]) ++ ((ascii "[a]" ++ [LF]) ++
      ((ascii " k=2 " ++ crlf) ++ []))))).1.get (ascii "a") (ascii "k") = .ok (ascii "2") := by
  have hnone : Blanks [] := fun _ h => absurd h List.not_mem_nil
  have hheading : IsLine (ascii "[a]") (.heading (ascii "a")) :=
    @IsLine.heading [] (ascii "a") [] hnone hnone (by decide)
  have hfirst : IsLine (ascii "k = 1") (.assignment (ascii "k") (ascii "1")) :=
    @IsLine.entry (ascii "k ") (ascii " 1") (by decide) (by decide) (by decide) (by decide)
  have hsecond : IsLine (ascii " k=2 ") (.assignment (ascii "k") (ascii "2")) :=
    @IsLine.entry (ascii " k") (ascii "2 ") (by decide) (by decide) (by decide) (by decide)
  have hlines := List.Forall₂.cons hheading (.cons hfirst (.cons hheading (.cons hsecond .nil)))
  have hdots : ∀ sect, Meaning.heading sect ∈ [.heading (ascii "a"), .assignment (ascii "k") (ascii "1"),
      .heading (ascii "a"), .assignment (ascii "k") (ascii "2")] → 46 ∉ sect := by
    intro sect hsect
    have ha : sect = ascii "a" := by simpa using hsect
    rw [ha]
    decide
  have hhead : Headed [.heading (ascii "a"), .assignment (ascii "k") (ascii "1"), .heading (ascii "a"),
      .assignment (ascii "k") (ascii "2")] := fun m hm => ⟨ascii "a", (Option.some.inj hm).symm⟩
  have hopened : Ended (ascii "[a]") (ascii "[a]" ++ crlf) := .crlf (by decide)
  have hone : Ended (ascii "k = 1") (ascii "k = 1" ++ [LF]) := .lf (by decide)
  have hreopened : Ended (ascii "[a]") (ascii "[a]" ++ [LF]) := .lf (by decide)
  have htwo : Ended (ascii " k=2 ") (ascii " k=2 " ++ crlf) := .crlf (by decide)
  have htext := Spells.cons hopened (.cons hone (.cons hreopened (.cons htwo .nil)))
  exact (loadFromString_of_writes hlines hdots hhead htext {}).2.1 (ascii "a") (ascii "k") (by decide)

end HttpsServer.Config
