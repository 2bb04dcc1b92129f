import HttpsServer.Config.Reading
import HttpsServer.Logger.Writes

/-!
# HttpsServer.Logger.Lines

Reading a log.

A line of the log determines the time, the level and the message it was built
of (`shown_of_body`), and the lines of the console and of the file are those of
the entries, as long as no message has a line end of its own
(`lines_read_back`).
-/

namespace HttpsServer.Logger

open Config (getLines_append)

/-! ## One line -/

/-- What a line shows of its entry. -/
def Entry.shown (e : Entry) : Tm × LogLevel × Bytes := (e.tm, e.call.level, e.call.message)

/-- The line without its end. -/
def Entry.body (e : Entry) : Bytes :=
  91 :: formatTimestamp e.tm ++ 93 :: 32 :: 91 :: e.call.level.toString ++
    93 :: 32 :: e.call.message

theorem Entry.line_eq (e : Entry) : e.line = e.body ++ [LF] := by
  have hopen : ascii "[" = [91] := by decide
  have hmiddle : ascii "] [" = [93, 32, 91] := by decide
  have hclose : ascii "] " = [93, 32] := by decide
  simp [Entry.line, Entry.body, formatLine, hopen, hmiddle, hclose]

/-- The bytes of a time. -/
def IsTimeByte (b : UInt8) : Prop := isDigit b = true ∨ b = 45 ∨ b = 32 ∨ b = 58

theorem isDigit_digit : ∀ d < 10, isDigit (48 + d).toUInt8 = true := by decide

theorem isDigit_of_mem_twoDigits {n : Nat} (hn : n < 100) {b : UInt8} (h : b ∈ twoDigits n) :
    isDigit b = true := by
  simp only [twoDigits, List.mem_cons, List.not_mem_nil, or_false] at h
  rcases h with rfl | rfl
  · exact isDigit_digit _ (by omega)
  · exact isDigit_digit _ (by omega)

theorem isTimeByte_of_mem {tm : Tm} {b : UInt8} (h : b ∈ formatTimestamp tm) : IsTimeByte b := by
  have hmon : (tm.tmMon : Nat) + 1 < 100 := by omega
  have hmday : (tm.tmMday : Nat) < 100 := by omega
  have hhour : (tm.tmHour : Nat) < 100 := by omega
  have hmin : (tm.tmMin : Nat) < 100 := by omega
  have hsec : (tm.tmSec : Nat) < 100 := by omega
  simp only [formatTimestamp, List.mem_append, List.mem_cons, or_assoc] at h
  rcases h with h | rfl | h | rfl | h | rfl | h | rfl | h | rfl | h
  · exact .inl ((isDecimal_toDecimal _).2 b h)
  · exact .inr (.inl rfl)
  · exact .inl (isDigit_of_mem_twoDigits hmon h)
  · exact .inr (.inl rfl)
  · exact .inl (isDigit_of_mem_twoDigits hmday h)
  · exact .inr (.inr (.inl rfl))
  · exact .inl (isDigit_of_mem_twoDigits hhour h)
  · exact .inr (.inr (.inr rfl))
  · exact .inl (isDigit_of_mem_twoDigits hmin h)
  · exact .inr (.inr (.inr rfl))
  · exact .inl (isDigit_of_mem_twoDigits hsec h)

/-- No time and no level has a bracket or a line end. -/
theorem not_mem_formatTimestamp {tm : Tm} {b : UInt8} (hb : b = 93 ∨ b = LF) :
    b ∉ formatTimestamp tm := by
  intro h
  have htime := isTimeByte_of_mem h
  rcases hb with rfl | rfl <;> revert htime <;> unfold IsTimeByte <;> decide

theorem not_mem_toString {level : LogLevel} {b : UInt8} (hb : b = 93 ∨ b = LF) :
    b ∉ level.toString := by
  rcases hb with rfl | rfl <;> cases level <;> decide

theorem digit_injective {c d : Nat} (hc : c < 10) (hd : d < 10)
    (h : (48 + c).toUInt8 = (48 + d).toUInt8) : c = d := by
  have hnat := congrArg UInt8.toNat h
  simp only [Nat.toUInt8_eq, UInt8.toNat_ofNat'] at hnat
  omega

theorem twoDigits_injective {m n : Nat} (hm : m < 100) (hn : n < 100)
    (h : twoDigits m = twoDigits n) : m = n := by
  simp only [twoDigits, List.cons.injEq, and_true] at h
  have htens := digit_injective (by omega) (by omega) h.1
  have hunits := digit_injective (by omega) (by omega) h.2
  omega

/-- Two digits, and what follows them. -/
theorem twoDigits_append {m n : Nat} (hm : m < 100) (hn : n < 100) {xs ys : Bytes}
    (h : twoDigits m ++ xs = twoDigits n ++ ys) : m = n ∧ xs = ys := by
  obtain ⟨hdigits, hrest⟩ := List.append_inj h rfl
  exact ⟨twoDigits_injective hm hn hdigits, hrest⟩

theorem formatTimestamp_injective {tm tm' : Tm} (h : formatTimestamp tm = formatTimestamp tm') :
    tm = tm' := by
  have hdigits : ∀ n, (45 : UInt8) ∉ toDecimal n := fun n hmem =>
    absurd ((isDecimal_toDecimal n).2 _ hmem) (by decide)
  simp only [formatTimestamp, List.append_assoc, List.cons_append] at h
  obtain ⟨hyear, h⟩ := append_cons_inj_of_not_mem (hdigits _) (hdigits _) h
  obtain ⟨hmon, h⟩ := twoDigits_append (by omega) (by omega) h
  obtain ⟨hmday, h⟩ := twoDigits_append (by omega) (by omega) (List.cons.inj h).2
  obtain ⟨hhour, h⟩ := twoDigits_append (by omega) (by omega) (List.cons.inj h).2
  obtain ⟨hmin, h⟩ := twoDigits_append (by omega) (by omega) (List.cons.inj h).2
  have hsec := twoDigits_injective (by omega) (by omega) (List.cons.inj h).2
  have hyear' : tm.tmYear = tm'.tmYear := Nat.add_right_cancel (toDecimal_inj.1 hyear)
  have hmon' : tm.tmMon = tm'.tmMon := Fin.ext (Nat.add_right_cancel hmon)
  obtain ⟨year, mon, mday, hour, min, sec⟩ := tm
  obtain ⟨year', mon', mday', hour', min', sec'⟩ := tm'
  simp only [Tm.mk.injEq]
  exact ⟨hyear', hmon', Fin.ext hmday, Fin.ext hhour, Fin.ext hmin, Fin.ext hsec⟩

theorem toString_injective {level level' : LogLevel} (h : level.toString = level'.toString) :
    level = level' := by
  have hread := congrArg (fun name => logLevelFromString (lowercase name)) h
  simpa only [logLevelFromString_toString] using hread

/-- **A line determines its entry.** -/
theorem shown_of_body {e e' : Entry} (h : e.body = e'.body) : e.shown = e'.shown := by
  have hbracket : (93 : UInt8) = 93 ∨ (93 : UInt8) = LF := .inl rfl
  simp only [Entry.body, List.cons_append, List.append_assoc] at h
  obtain ⟨htm, h⟩ := append_cons_inj_of_not_mem (not_mem_formatTimestamp hbracket)
    (not_mem_formatTimestamp hbracket) (List.cons.inj h).2
  obtain ⟨hlevel, h⟩ := append_cons_inj_of_not_mem (not_mem_toString hbracket) (not_mem_toString hbracket)
    (List.cons.inj (List.cons.inj h).2).2
  rw [Entry.shown, formatTimestamp_injective htm, toString_injective hlevel, (List.cons.inj h).2,
    Entry.shown]

/-! ## All lines -/

theorem not_mem_body {e : Entry} (h : LF ∉ e.call.message) : LF ∉ e.body := by
  have htime : LF ∉ formatTimestamp e.tm := not_mem_formatTimestamp (.inr rfl)
  have hlevel : LF ∉ e.call.level.toString := not_mem_toString (.inr rfl)
  have hopen : LF ≠ 91 := by decide
  have hclose : LF ≠ 93 := by decide
  have hblank : LF ≠ 32 := by decide
  simp [Entry.body, htime, hlevel, h, hopen, hclose, hblank]

/-- The lines of the text are those of the entries. -/
theorem getLines_text {entries : List Entry} (h : ∀ e ∈ entries, LF ∉ e.call.message) :
    getLines (text entries) = entries.map Entry.body := by
  induction entries with
  | nil => rfl
  | cons e entries ih =>
      obtain ⟨he, hentries⟩ := List.forall_mem_cons.1 h
      have hsplit : text (e :: entries) = e.body ++ LF :: text entries := by
        simp [text, Entry.line_eq]
      rw [hsplit, getLines_append (not_mem_body he), ih hentries, List.map_cons]

theorem getLines_ne_nil {s : Bytes} (h : s ≠ []) : getLines s ≠ [] := by
  cases s with
  | nil => exact absurd rfl h
  | cons b s =>
      rw [getLines]
      split
      · simp
      · split <;> simp

/-- Lines that follow a whole number of lines. -/
theorem getLines_append_of_ended {start : Bytes} (h : start = [] ∨ start.getLast? = some LF)
    (rest : Bytes) : getLines (start ++ rest) = getLines start ++ getLines rest := by
  induction start with
  | nil => rfl
  | cons b start ih =>
      have hstart : start = [] ∨ start.getLast? = some LF := by
        cases start with
        | nil => exact .inl rfl
        | cons b' start => simpa [List.getLast?_cons_cons] using h
      rw [List.cons_append, getLines, getLines, ih hstart]
      by_cases hb : b = LF
      · simp only [hb, if_true, List.cons_append]
      · -- the line of `b` goes on in `start`
        have hne : start ≠ [] := by
          rintro rfl
          simp [hb] at h
        simp only [if_neg hb]
        cases hlines : getLines start with
        | nil => exact absurd hlines (getLines_ne_nil hne)
        | cons line lines => rfl

/-- Every line end of a text ends a line. -/
theorem count_le_length_getLines (s : Bytes) : s.count LF ≤ (getLines s).length := by
  induction s with
  | nil => exact Nat.le_refl _
  | cons b s ih =>
      rw [getLines]
      by_cases hb : b = LF
      · subst hb
        simpa using ih
      · rw [if_neg hb, List.count_cons_of_ne hb]
        cases hlines : getLines s with
        | nil =>
            rw [hlines] at ih
            exact Nat.le_succ_of_le ih
        | cons line lines =>
            rw [hlines] at ih
            exact ih

/-- A message with a line end of its own makes more lines than entries. -/
theorem length_lt_of_mem {entries : List Entry} {e : Entry} (he : e ∈ entries)
    (hmessage : LF ∈ e.call.message) : entries.length < (getLines (text entries)).length := by
  refine Nat.lt_of_lt_of_le ?_ (count_le_length_getLines _)
  have hcount : ∀ e : Entry, e.line.count LF = e.body.count LF + 1 := fun e => by
    simp [Entry.line_eq]
  have hall : ∀ es : List Entry, es.length ≤ (text es).count LF := by
    intro es
    induction es with
    | nil => exact Nat.le_refl _
    | cons e es ih =>
        simp only [text, List.flatMap_cons, List.count_append, hcount, List.length_cons] at ih ⊢
        omega
  obtain ⟨before, after, rfl⟩ := List.append_of_mem he
  have hpos : 0 < e.body.count LF := by
    rw [List.count_pos_iff, Entry.body]
    simp [hmessage]
  have hbefore := hall before
  have hafter := hall after
  simp only [text, List.flatMap_append, List.flatMap_cons, List.count_append, hcount,
    List.length_append, List.length_cons] at hbefore hafter ⊢
  omega

/-- The lines of the text are those of the entries exactly when no message has
a line end of its own. -/
theorem getLines_text_iff {entries : List Entry} :
    getLines (text entries) = entries.map Entry.body ↔ ∀ e ∈ entries, LF ∉ e.call.message := by
  refine ⟨fun h e he hmessage => ?_, getLines_text⟩
  have hlong := length_lt_of_mem he hmessage
  rw [h, List.length_map] at hlong
  exact Nat.lt_irrefl _ hlong

/-- **Reading a log.**  Whenever no thread is writing, the lines of the console
are those of the entries exactly when no message has a line end of its own; the
same holds of the file, whose lines follow those it had before; and each such
line determines the time, the level and the message of its entry. -/
theorem lines_read_back (minimumLevel : LogLevel) (logFile : Bytes) (contents : Option Bytes)
    (n : Nat) {s : State} (h : (machine minimumLevel logFile contents n).Reachable s)
    (hfree : s.holder = none) :
    (getLines s.console = s.entries.map Entry.body ↔ ∀ e ∈ s.entries, LF ∉ e.call.message) ∧
    (∀ start, logFile ≠ [] → contents = some start → start = [] ∨ start.getLast? = some LF →
      ∃ f, s.file = some f ∧
        (getLines f.disk = getLines start ++ s.entries.map Entry.body ↔
          ∀ e ∈ s.entries, LF ∉ e.call.message)) ∧
    ∀ e e' : Entry, e.body = e'.body → e.shown = e'.shown := by
  have hinv := Inv.of_reachable h
  have hinside : inside s.threads s.holder = .idle := by
    rw [hfree]
    rfl
  have hout := hinv.outputs
  rw [hinside] at hout
  refine ⟨?_, ?_, fun e e' => shown_of_body⟩
  · rw [hout.console.eq_text]
    exact getLines_text_iff
  · rintro start hfile rfl hended
    obtain ⟨f, hf, hdisk⟩ := hout.filed.wholeLines hfile fun (_ : (none : Option Nat) = none) => rfl
    refine ⟨f, hf, ?_⟩
    rw [hdisk.free rfl, getLines_append_of_ended hended, List.append_cancel_left_eq]
    exact getLines_text_iff

theorem lines_read_back_twoWriters :
    ∃ s, (machine .info (ascii "server.log") (some []) 2).run
        (.initial .info (ascii "server.log") (some []) 2) twoWriters = some s ∧
      (getLines s.console = s.entries.map Entry.body ↔ ∀ e ∈ s.entries, LF ∉ e.call.message) := by
  have hends : (((machine .info (ascii "server.log") (some []) 2).run
      (.initial .info (ascii "server.log") (some []) 2) twoWriters).map fun s =>
        decide (s.holder = none)) = some true := by
    decide +kernel
  obtain ⟨s, hs, hfree⟩ := Option.map_eq_some_iff.1 hends
  obtain ⟨hlines, -⟩ := lines_read_back _ _ _ _ ⟨twoWriters, hs⟩ (of_decide_eq_true hfree)
  exact ⟨s, hs, hlines⟩

end HttpsServer.Logger
