import HttpsServer.Logger
import HttpsServer.Progress

/-!
# HttpsServer.Logger.Writes

What the threads of a logger write, however their steps are interleaved.

One thread at a time is between the lock and the unlock of `write`
(`Exclusive`), so what the console and the file lack of the lines built so far
is the end of the last one (`Lacks`), and each thread's entries are the calls
that `enabled` has let through, in its own order (`State.passed`).
-/

namespace HttpsServer.Logger

/-! ## The lock -/

/-- The thread holds `mutex_`. -/
def Position.holds : Position → Bool
  | locked _ | printing _ _ | printed _ | filed | done => true
  | idle | entered _ | waiting _ => false

/-- The holder of the lock is the one thread inside. -/
structure Exclusive (threads : List Position) (holder : Option Nat) : Prop where
  holds : ∀ i p, threads[i]? = some p → (p.holds = true ↔ holder = some i)
  within : ∀ i, holder = some i → i < threads.length

/-- Where the holder of the lock stands. -/
def inside (threads : List Position) (holder : Option Nat) : Position :=
  match holder with
  | none => .idle
  | some i => threads[i]?.getD .idle

/-- The slots after a thread has moved. -/
theorem getElem?_moved {threads : List Position} {i j : Nat} {q r : Position}
    (h : (threads.set i q)[j]? = some r) : (j = i ∧ r = q) ∨ (j ≠ i ∧ threads[j]? = some r) := by
  by_cases hj : j = i
  · subst hj
    have hlt : j < threads.length := by
      simpa using (List.getElem?_eq_some_iff.1 h).1
    rw [List.getElem?_set_self hlt] at h
    exact .inl ⟨rfl, (Option.some.inj h).symm⟩
  · rw [List.getElem?_set_ne (Ne.symm hj)] at h
    exact .inr ⟨hj, h⟩

namespace Exclusive

variable {threads : List Position} {holder : Option Nat} {i : Nat} {p q : Position}

theorem unique (h : Exclusive threads holder) {j : Nat} (hi : threads[i]? = some p)
    (hj : threads[j]? = some q) (hp : p.holds = true) (hq : q.holds = true) : i = j :=
  Option.some.inj (((h.holds i p hi).1 hp).symm.trans ((h.holds j q hj).1 hq))

/-- A step outside the lock, or inside it. -/
theorem move (h : Exclusive threads holder) (hi : threads[i]? = some p) (hq : q.holds = p.holds) :
    Exclusive (threads.set i q) holder where
  holds j r hr := by
    obtain ⟨rfl, rfl⟩ | ⟨-, hr⟩ := getElem?_moved hr
    · rw [hq]
      exact h.holds j p hi
    · exact h.holds j r hr
  within j hj := by
    rw [List.length_set]
    exact h.within j hj

theorem lock (h : Exclusive threads none) (hi : threads[i]? = some p) (hq : q.holds = true) :
    Exclusive (threads.set i q) (some i) where
  holds j r hr := by
    obtain ⟨rfl, rfl⟩ | ⟨hne, hr⟩ := getElem?_moved hr
    · simpa using hq
    · have hout : ¬ r.holds = true := fun hr' => absurd ((h.holds j r hr).1 hr') (by simp)
      simpa [hout] using Ne.symm hne
  within j hj := by
    obtain rfl : i = j := Option.some.inj hj
    rw [List.length_set]
    exact (List.getElem?_eq_some_iff.1 hi).1

theorem unlock (h : Exclusive threads holder) (hi : threads[i]? = some p) (hp : p.holds = true)
    (hq : q.holds = false) : Exclusive (threads.set i q) none where
  holds j r hr := by
    obtain ⟨rfl, rfl⟩ | ⟨hne, hr⟩ := getElem?_moved hr
    · simp [hq]
    · have hout : ¬ r.holds = true := fun hr' => hne (h.unique hr hi hr' hp)
      simpa using hout
  within j hj := absurd hj.symm (Option.some_ne_none j)

theorem inside_eq (h : Exclusive threads holder) (hi : threads[i]? = some p)
    (hp : p.holds = true) : inside threads holder = p := by
  rw [(h.holds i p hi).1 hp, inside, hi, Option.getD_some]

theorem inside_moved (h : Exclusive (threads.set i q) holder) (hi : threads[i]? = some p)
    (hq : q.holds = true) : inside (threads.set i q) holder = q :=
  h.inside_eq (List.getElem?_set_self (List.getElem?_eq_some_iff.1 hi).1) hq

/-- Who is outside moves without the thread inside. -/
theorem inside_move (h : Exclusive threads holder) (hi : threads[i]? = some p)
    (hp : p.holds = false) : inside (threads.set i q) holder = inside threads holder := by
  cases holder with
  | none => rfl
  | some j =>
      have hne : i ≠ j := by
        rintro rfl
        rw [(h.holds i p hi).2 rfl] at hp
        cases hp
      rw [inside, inside, List.getElem?_set_ne hne]

end Exclusive

/-! ## What the outputs lack -/

/-- The lines of the entries. -/
def text (entries : List Entry) : Bytes := entries.flatMap Entry.line

/-- The output lacks these bytes of the text of the entries, which are an end
of the last line. -/
def Lacks (output : Bytes) (entries : List Entry) (missing : Bytes) : Prop :=
  output ++ missing = text entries ∧
    (missing = [] ∨ ∃ before e, entries = before ++ [e] ∧ missing <:+ e.line)

namespace Lacks

variable {output missing : Bytes} {entries : List Entry}

theorem nil : Lacks [] [] [] := ⟨rfl, .inl rfl⟩

theorem eq_text (h : Lacks output entries []) : output = text entries := by
  simpa using h.1

/-- A line has been built. -/
theorem build (h : Lacks output entries []) (e : Entry) : Lacks output (entries ++ [e]) e.line :=
  ⟨by simp [text, h.eq_text], .inr ⟨entries, e, rfl, List.suffix_rfl⟩⟩

/-- Some of what was missing has been written. -/
theorem write {written rest : Bytes} (h : Lacks output entries (written ++ rest)) :
    Lacks (output ++ written) entries rest := by
  refine ⟨by rw [List.append_assoc, h.1], ?_⟩
  obtain hnil | ⟨before, e, hentries, hmissing⟩ := h.2
  · exact .inl (List.append_eq_nil_iff.1 hnil).2
  · exact .inr ⟨before, e, hentries, (List.suffix_append _ _).trans hmissing⟩

/-- Every line but the last is there. -/
theorem whole_lines (h : Lacks output entries missing) :
    text entries.dropLast <+: output ∧ output <+: text entries := by
  refine ⟨?_, missing, h.1⟩
  obtain hnil | ⟨before, e, rfl, written, hline⟩ := h.2
  · rw [hnil] at h
    rw [h.eq_text]
    obtain ⟨rest, hrest⟩ := List.dropLast_prefix entries
    exact ⟨text rest, by rw [text, text, ← List.flatMap_append, hrest, text]⟩
  · have htext : output ++ missing = (text before ++ written) ++ missing := by
      rw [h.1, List.append_assoc, hline]
      simp [text]
    rw [List.dropLast_concat, List.append_cancel_right htext]
    exact List.prefix_append _ _

end Lacks

/-- What the thread inside has not yet written to `std::cerr`. -/
def Position.unprinted : Position → Bytes
  | printing _ rest => rest
  | idle | entered _ | waiting _ | locked _ | printed _ | filed | done => []

/-- What the thread inside has not yet handed to the file. -/
def Position.unfiled : Position → Bytes
  | printing line _ | printed line => line
  | idle | entered _ | waiting _ | locked _ | filed | done => []

/-- What has become of the file that the constructor opened. -/
inductive Filed (entries : List Entry) (p : Position) : Option LogFile → Option LogFile → Prop
  | noFile : Filed entries p none none
  | notOpen {disk : Bytes} : Filed entries p (some ⟨false, [], disk⟩) (some ⟨false, [], disk⟩)
  | opened {start written buffer : Bytes} : Lacks written entries (buffer ++ p.unfiled) →
      (p ≠ .filed → buffer = []) →
      Filed entries p (some ⟨true, [], start⟩) (some ⟨true, buffer, start ++ written⟩)

namespace Filed

variable {entries : List Entry} {p q : Position} {file₀ file : Option LogFile}

theorem initial (logFile : Bytes) (contents : Option Bytes) :
    Filed [] .idle (openFile logFile contents) (openFile logFile contents) := by
  unfold openFile
  split
  · exact .noFile
  · cases contents with
    | none => exact .notOpen
    | some disk =>
        have h : Filed [] .idle (some ⟨true, [], disk⟩) (some ⟨true, [], disk ++ []⟩) :=
          .opened Lacks.nil fun _ => rfl
        rwa [List.append_nil] at h

/-- A step that leaves the file alone. -/
theorem move (h : Filed entries p file₀ file) (hp : p ≠ .filed) (hq : q.unfiled = p.unfiled) :
    Filed entries q file₀ file := by
  cases h with
  | noFile => exact .noFile
  | notOpen => exact .notOpen
  | opened hlacks hbuffer =>
      rw [← hq] at hlacks
      exact .opened hlacks fun _ => hbuffer hp

/-- A line has been built. -/
theorem build (h : Filed entries p file₀ file) (hp : p ≠ .filed) (hnone : p.unfiled = [])
    (e : Entry) (hq : q.unfiled = e.line) : Filed (entries ++ [e]) q file₀ file := by
  cases h with
  | noFile => exact .noFile
  | notOpen => exact .notOpen
  | opened hlacks hbuffer =>
      obtain rfl := hbuffer hp
      rw [hnone, List.append_nil] at hlacks
      refine .opened ?_ fun _ => rfl
      rw [hq]
      exact hlacks.build e

theorem insert {line : Bytes} {f : LogFile} (h : Filed entries (.printed line) file₀ (some f))
    (hopen : f.isOpen = true) (n : Nat) :
    Filed entries .filed file₀ (some (f.insert line n)) := by
  cases h with
  | notOpen => cases hopen
  | @opened start written buffer hlacks hbuffer =>
      obtain rfl := hbuffer (by simp)
      rw [List.nil_append, Position.unfiled, ← List.take_append_drop n line] at hlacks
      rw [LogFile.insert, List.nil_append, List.append_assoc]
      refine .opened ?_ fun hne => absurd rfl hne
      rw [Position.unfiled, List.append_nil]
      exact hlacks.write

/-- The line of a logger without an open file is dropped here. -/
theorem skip {line : Bytes} (h : Filed entries (.printed line) file₀ file)
    (hclosed : ∀ f, file = some f → f.isOpen = false) : Filed entries q file₀ file := by
  cases h with
  | noFile => exact .noFile
  | notOpen => exact .notOpen
  | opened hlacks hbuffer => cases hclosed _ rfl

theorem flush (h : Filed entries .filed file₀ file) :
    Filed entries .done file₀ (file.map LogFile.flush) := by
  cases h with
  | noFile => exact .noFile
  | notOpen =>
      rw [Option.map_some, LogFile.flush, List.append_nil]
      exact .notOpen
  | @opened start written buffer hlacks hbuffer =>
      rw [Option.map_some, LogFile.flush, List.append_assoc]
      have hbuffered : Lacks written entries (buffer ++ []) := hlacks
      exact .opened hbuffered.write fun _ => rfl

end Filed

/-! ## The order of each thread -/

/-- A call that has been let through and has no entry yet. -/
def Position.pending : Position → List Call
  | waiting call | locked call => [call]
  | idle | entered _ | printing _ _ | printed _ | filed | done => []

/-- The calls of thread `i` that `enabled` has let through. -/
def passed (checked : List Check) (i : Nat) : List Call :=
  (checked.filter fun c => c.thread = i ∧ c.minimum.value ≤ c.call.level.value).map Check.call

/-- The calls of thread `i` that have an entry. -/
def emitted (entries : List Entry) (i : Nat) : List Call :=
  (entries.filter fun e => e.thread = i).map Entry.call

/-- Each thread's calls get their entries in its own order. -/
def Ordered (checked : List Check) (entries : List Entry) (threads : List Position) : Prop :=
  ∀ i p, threads[i]? = some p → passed checked i = emitted entries i ++ p.pending

namespace Ordered

variable {checked : List Check} {entries : List Entry} {threads : List Position} {i : Nat}
  {p q : Position} {call : Call}

theorem move (h : Ordered checked entries threads) (hi : threads[i]? = some p)
    (hq : q.pending = p.pending) : Ordered checked entries (threads.set i q) := by
  intro j r hr
  obtain ⟨rfl, rfl⟩ | ⟨-, hr⟩ := getElem?_moved hr
  · rw [hq]
    exact h j p hi
  · exact h j r hr

/-- `enabled` has decided a call. -/
theorem check (h : Ordered checked entries threads) (hi : threads[i]? = some p)
    (hp : p.pending = []) (minimum : LogLevel)
    (hq : q.pending = if minimum.value ≤ call.level.value then [call] else []) :
    Ordered (checked ++ [⟨i, call, minimum⟩]) entries (threads.set i q) := by
  intro j r hr
  obtain ⟨rfl, rfl⟩ | ⟨hne, hr⟩ := getElem?_moved hr
  · have hj := h j p hi
    rw [hp, List.append_nil] at hj
    rw [hq, ← hj]
    by_cases hlevel : minimum.value ≤ call.level.value <;> simp [passed, hlevel]
  · rw [← h j r hr]
    simp [passed, Ne.symm hne]

/-- A line has been built. -/
theorem build (h : Ordered checked entries threads) (hi : threads[i]? = some p)
    (hp : p.pending = [call]) (hq : q.pending = []) (tm : Tm) :
    Ordered checked (entries ++ [⟨i, tm, call⟩]) (threads.set i q) := by
  intro j r hr
  obtain ⟨rfl, rfl⟩ | ⟨hne, hr⟩ := getElem?_moved hr
  · rw [h j p hi, hp, hq]
    simp [emitted]
  · rw [h j r hr]
    simp [emitted, Ne.symm hne]

end Ordered

/-! ## The invariant -/

/-- What the outputs hold where the thread inside stands at `p`. -/
structure Outputs (file₀ : Option LogFile) (s : State) (p : Position) : Prop where
  console : Lacks s.console s.entries p.unprinted
  filed : Filed s.entries p file₀ s.file

/-- What every step keeps. -/
structure Inv (file₀ : Option LogFile) (s : State) : Prop where
  exclusive : Exclusive s.threads s.holder
  outputs : Outputs file₀ s (inside s.threads s.holder)
  ordered : Ordered s.checked s.entries s.threads

variable {file₀ : Option LogFile} {s t : State} {a : Action}

theorem Inv.initial (minimumLevel : LogLevel) (logFile : Bytes) (contents : Option Bytes)
    (n : Nat) :
    Inv (openFile logFile contents) (.initial minimumLevel logFile contents n) where
  exclusive := {
    holds := fun i p hp => by
      obtain rfl : p = .idle := List.eq_of_mem_replicate (List.mem_of_getElem? hp)
      simp [Position.holds, State.initial]
    within := fun i hi => absurd hi.symm (Option.some_ne_none i) }
  outputs := ⟨.nil, .initial logFile contents⟩
  ordered := fun i p hp => by
    obtain rfl : p = .idle := List.eq_of_mem_replicate (List.mem_of_getElem? hp)
    rfl

/-- A thread outside moves. -/
theorem Inv.outside_step {i : Nat} {p q : Position} (h : Inv file₀ s)
    (hi : s.threads[i]? = some p) (hp : p.holds = false) (hq : q.holds = false)
    {checked : List Check} (hordered : Ordered checked s.entries (s.threads.set i q)) :
    Inv file₀ { s.move i q with checked := checked } where
  exclusive := h.exclusive.move hi (hq.trans hp.symm)
  outputs := by
    rw [State.move, h.exclusive.inside_move hi hp]
    exact ⟨h.outputs.console, h.outputs.filed⟩
  ordered := hordered

/-- The thread inside moves and keeps the lock. -/
theorem Inv.inside_step {i : Nat} {p q : Position} (h : Inv file₀ s)
    (hi : s.threads[i]? = some p) (hp : p.holds = true) (hq : q.holds = true)
    (hthreads : t.threads = s.threads.set i q) (hholder : t.holder = s.holder)
    (houtputs : Outputs file₀ s p → Outputs file₀ t q)
    (hordered : Ordered t.checked t.entries (s.threads.set i q)) : Inv file₀ t := by
  have hexclusive := h.exclusive.move hi (hq.trans hp.symm)
  have hout := h.outputs
  rw [h.exclusive.inside_eq hi hp] at hout
  refine ⟨?_, ?_, ?_⟩
  · rwa [hthreads, hholder]
  · rw [hthreads, hholder, hexclusive.inside_moved hi hq]
    exact houtputs hout
  · rwa [hthreads]

/-- **Step**: what one step preserves. -/
theorem Inv.step (h : Inv file₀ s) (hst : Step s a t) : Inv file₀ t := by
  cases hst with
  | called call hi => exact h.outside_step hi rfl rfl (h.ordered.move hi rfl)
  | passed hi hlevel =>
      exact h.outside_step hi rfl rfl (h.ordered.check hi rfl _ (if_pos hlevel).symm)
  | dropped hi hlevel =>
      exact h.outside_step hi rfl rfl
        (h.ordered.check hi rfl _ (if_neg (Nat.not_le.2 hlevel)).symm)
  | @locked i call hi hfree =>
      obtain ⟨hexclusive, hout, hordered⟩ := h
      rw [hfree] at hexclusive hout
      have hlocked := hexclusive.lock (q := .locked call) hi rfl
      refine ⟨hlocked, ?_, hordered.move hi rfl⟩
      rw [State.move, hlocked.inside_moved hi rfl]
      exact ⟨hout.console, hout.filed.move (by simp [inside]) rfl⟩
  | formatted tm hi =>
      exact h.inside_step hi rfl rfl rfl rfl
        (fun hout => ⟨hout.console.build _, hout.filed.build (by simp) rfl _ rfl⟩)
        (h.ordered.build hi rfl rfl tm)
  | @printed i n line rest hi =>
      have hprint : ∀ {q : Position}, q.unfiled = line → q.unprinted = rest.drop n →
          Outputs file₀ s (.printing line rest) →
          Outputs file₀ { s.move i q with console := s.console ++ rest.take n } q := by
        intro q hunfiled hunprinted hout
        have hrest := hout.console
        rw [Position.unprinted, ← List.take_append_drop n rest, ← hunprinted] at hrest
        exact ⟨hrest.write, hout.filed.move (by simp) hunfiled⟩
      split
      · next hnil =>
        exact h.inside_step hi rfl rfl rfl rfl (hprint rfl hnil.symm) (h.ordered.move hi rfl)
      · exact h.inside_step hi rfl rfl rfl rfl (hprint rfl rfl) (h.ordered.move hi rfl)
  | @inserted i n line f hi hf hopen =>
      exact h.inside_step hi rfl rfl rfl rfl
        (fun hout => ⟨hout.console, (hf ▸ hout.filed).insert hopen n⟩) (h.ordered.move hi rfl)
  | unfiled hi hclosed =>
      exact h.inside_step hi rfl rfl rfl rfl
        (fun hout => ⟨hout.console, hout.filed.skip hclosed⟩) (h.ordered.move hi rfl)
  | flushed hi =>
      exact h.inside_step hi rfl rfl rfl rfl (fun hout => ⟨hout.console, hout.filed.flush⟩)
        (h.ordered.move hi rfl)
  | unlocked hi =>
      have hout := h.outputs
      rw [h.exclusive.inside_eq hi rfl] at hout
      exact ⟨h.exclusive.unlock hi rfl rfl, ⟨hout.console, hout.filed.move (by simp) rfl⟩,
        h.ordered.move hi rfl⟩
  | levelSet level => exact ⟨h.exclusive, ⟨h.outputs.console, h.outputs.filed⟩, h.ordered⟩

/-- **Runs**: the invariant holds in every reachable state. -/
theorem Inv.of_reachable {minimumLevel : LogLevel} {logFile : Bytes} {contents : Option Bytes}
    {n : Nat} (h : (machine minimumLevel logFile contents n).Reachable s) :
    Inv (openFile logFile contents) s :=
  h.invariant (.initial minimumLevel logFile contents n) fun _ _ _ hs hst => hs.step (.of_step hst)

/-! ## Calls that end -/

/-- A step inside `log` that gets on: a line is built with the time `tm`, and a
write writes something. -/
def Action.Proceeds (tm : Tm) : Action → Prop
  | log _ _ | setLevel _ => False
  | format _ now => now = tm
  | print _ n => 0 < n
  | check _ | lock _ | insert _ _ | flush _ | unlock _ => True

/-- The steps a thread has still to take, the bytes of its line among them. -/
def Position.work (tm : Tm) : Position → Nat
  | idle => 0
  | done => 1
  | filed => 2
  | printed _ => 3
  | printing _ rest => rest.length + 4
  | locked call => (formatLine tm call.level call.message).length + 5
  | waiting call => (formatLine tm call.level call.message).length + 6
  | entered call => (formatLine tm call.level call.message).length + 7

def State.work (tm : Tm) (s : State) : Nat := (s.threads.map (Position.work tm)).sum

theorem work_move {tm : Tm} {i : Nat} {p q : Position} (hi : s.threads[i]? = some p)
    (hless : q.work tm < p.work tm) : (s.move i q).work tm < s.work tm := by
  have hsum := sum_map_set_slot (Position.work tm) q hi
  simp only [State.work, State.move]
  omega

theorem Step.work {tm : Tm} (h : Step s a t) (ha : a.Proceeds tm) : t.work tm < s.work tm := by
  cases h with
  | called | levelSet => cases ha
  | passed hi _ => exact work_move hi (Nat.lt_succ_self _)
  | dropped hi _ => exact work_move hi (Nat.succ_pos _)
  | locked hi _ => exact work_move hi (Nat.lt_succ_self _)
  | formatted now hi =>
      obtain rfl : now = tm := ha
      exact work_move hi (Nat.lt_succ_self _)
  | @printed i n line rest hi =>
      have hn : 0 < n := ha
      split
      · refine work_move hi ?_
        simp only [Position.work]
        omega
      · next hrest =>
        have hlong : n < rest.length := by simpa using hrest
        refine work_move hi ?_
        simp only [Position.work, List.length_drop]
        omega
  | inserted hi _ _ | unfiled hi _ => exact work_move hi (by simp [Position.work])
  | flushed hi | unlocked hi => exact work_move hi (by simp [Position.work])

/-- Where no thread can get on, all have returned. -/
theorem idle_of_stuck {tm : Tm} (hexclusive : Exclusive s.threads s.holder)
    (hstuck : ∀ a, a.Proceeds tm → s.step a = none) {p : Position} (hmem : p ∈ s.threads) :
    p = .idle := by
  obtain ⟨i, hi⟩ := List.mem_iff_getElem?.1 hmem
  -- the thread inside can always get on
  have hout : ∀ {j : Nat} {q : Position}, s.threads[j]? = some q → ¬ q.holds = true := by
    intro j q hj hholds
    cases q with
    | idle | entered | waiting => cases hholds
    | locked call => exact absurd (hstuck (.format j tm) rfl) (by simp [State.step, hj])
    | printing line rest =>
        exact absurd (hstuck (.print j 1) Nat.one_pos) (by simp [State.step, hj])
    | printed line =>
        have hinsert := hstuck (.insert j 0) trivial
        simp only [State.step, hj] at hinsert
        split at hinsert
        · split at hinsert <;> cases hinsert
        · cases hinsert
        · next hnone hsome =>
          cases hfile : s.file with
          | none => exact hsome line rfl hfile
          | some f => exact hnone line f rfl hfile
    | filed => exact absurd (hstuck (.flush j) trivial) (by simp [State.step, hj])
    | done => exact absurd (hstuck (.unlock j) trivial) (by simp [State.step, hj])
  have hfree : s.holder = none := by
    refine Option.eq_none_iff_forall_ne_some.2 fun j hholder => ?_
    have hj := List.getElem?_eq_getElem (hexclusive.within j hholder)
    exact hout hj ((hexclusive.holds j _ hj).2 hholder)
  cases p with
  | idle => rfl
  | entered call => exact absurd (hstuck (.check i) trivial) (by simp [State.step, hi])
  | waiting call => exact absurd (hstuck (.lock i) trivial) (by simp [State.step, hi, hfree])
  | locked | printing | printed | filed | done => exact absurd rfl (hout hi)

/-- Every call that is under way can be finished. -/
theorem exists_run_idle {minimumLevel : LogLevel} {logFile : Bytes} {contents : Option Bytes}
    {n : Nat} (tm : Tm) (h : Inv (openFile logFile contents) s) :
    ∃ as t, (machine minimumLevel logFile contents n).run s as = some t ∧
      (∀ a ∈ as, a.Proceeds tm) ∧ t.holder = none ∧ ∀ p ∈ t.threads, p = .idle := by
  obtain ⟨as, t, hrun, has, hinv, hstuck⟩ := Machine.exists_run_stuck
    (M := machine minimumLevel logFile contents n) (P := Action.Proceeds tm) (l := State.work tm)
    (fun s a t hs ha hst => ⟨hs.step (.of_step hst), (Step.of_step hst).work ha⟩) h
  have hidle : ∀ p ∈ t.threads, p = .idle := fun p => idle_of_stuck hinv.exclusive hstuck
  refine ⟨as, t, hrun, has, ?_, hidle⟩
  refine Option.eq_none_iff_forall_ne_some.2 fun i hholder => ?_
  have hi := List.getElem?_eq_getElem (hinv.exclusive.within i hholder)
  have hholds := (hinv.exclusive.holds i _ hi).2 hholder
  rw [hidle _ (List.mem_of_getElem? hi)] at hholds
  cases hholds

/-! ## Whole lines -/

/-- After `start`, the output holds the lines of the entries, each of them
whole but for the one that the holder of the lock is writing. -/
structure WholeLines (holder : Option Nat) (entries : List Entry) (start output : Bytes) : Prop where
  complete : start ++ text entries.dropLast <+: output
  order : output <+: start ++ text entries
  free : holder = none → output = start ++ text entries

theorem Lacks.wholeLines {holder : Option Nat} {entries : List Entry} {output missing : Bytes}
    (h : Lacks output entries missing) (hfree : holder = none → missing = []) (start : Bytes) :
    WholeLines holder entries start (start ++ output) where
  complete := (List.prefix_append_right_inj start).2 h.whole_lines.1
  order := (List.prefix_append_right_inj start).2 h.whole_lines.2
  free hholder := by
    rw [hfree hholder] at h
    rw [h.eq_text]

/-- A file that could be opened. -/
theorem Filed.wholeLines {entries : List Entry} {p : Position} {start logFile : Bytes}
    {file : Option LogFile} {holder : Option Nat}
    (h : Filed entries p (openFile logFile (some start)) file) (hfile : logFile ≠ [])
    (hfree : holder = none → p = .idle) :
    ∃ f, file = some f ∧ WholeLines holder entries start f.disk := by
  rw [openFile, if_neg hfile] at h
  cases h with
  | @opened _ written buffer hlacks hbuffer =>
      refine ⟨_, rfl, hlacks.wholeLines (fun hholder => ?_) start⟩
      obtain rfl := hfree hholder
      rw [hbuffer (by simp)]
      rfl

/-- **Threads do not tear each other's lines.**  In every interleaving: one
thread at a time is inside the lock; each thread's entries are the calls that
`enabled` let through, in its order; the console and the file hold the same
entries in the same order, in whole lines; and every call that is under way can
be finished. -/
theorem writes_whole_lines (minimumLevel : LogLevel) (logFile : Bytes) (contents : Option Bytes)
    (n : Nat) {s : State} (h : (machine minimumLevel logFile contents n).Reachable s) :
    (∀ (i j : Nat) (p q : Position), s.threads[i]? = some p → s.threads[j]? = some q →
      p.holds = true → q.holds = true → i = j) ∧
    (∀ (i : Nat) (p : Position), s.threads[i]? = some p →
      passed s.checked i = emitted s.entries i ++ p.pending) ∧
    WholeLines s.holder s.entries [] s.console ∧
    (∀ start, logFile ≠ [] → contents = some start →
      ∃ f, s.file = some f ∧ WholeLines s.holder s.entries start f.disk) ∧
    ∀ tm, ∃ as t, (machine minimumLevel logFile contents n).run s as = some t ∧
      (∀ a ∈ as, a.Proceeds tm) ∧ t.holder = none ∧ ∀ p ∈ t.threads, p = .idle := by
  have hinv := Inv.of_reachable h
  have hfree : s.holder = none → inside s.threads s.holder = .idle := by
    intro hholder
    rw [hholder]
    rfl
  refine ⟨fun i j p q hi hj => hinv.exclusive.unique hi hj, hinv.ordered, ?_, ?_,
    fun tm => exists_run_idle tm hinv⟩
  · refine hinv.outputs.console.wholeLines (fun hholder => ?_) []
    rw [hfree hholder]
    rfl
  · rintro start hfile rfl
    exact hinv.outputs.filed.wholeLines hfile hfree

/-- Two threads, of which the second is let through while the first is writing. -/
def twoWriters : List Action :=
  let now : Tm := ⟨124, 0, 2, 3, 4, 5⟩
  [.log 0 (info (ascii "up")), .log 1 (error (ascii "down")), .check 0, .lock 0, .check 1,
    .format 0 now, .print 0 9, .print 0 40, .insert 0 7, .flush 0, .unlock 0, .lock 1,
    .format 1 now, .print 1 40, .insert 1 0, .flush 1, .unlock 1]

theorem writes_whole_lines_twoWriters :
    ∃ s, (machine .info (ascii "server.log") (some []) 2).run
        (.initial .info (ascii "server.log") (some []) 2) (twoWriters.take 7) = some s ∧
      s.holder = some 0 ∧ WholeLines s.holder s.entries [] s.console := by
  have hends : (((machine .info (ascii "server.log") (some []) 2).run
      (.initial .info (ascii "server.log") (some []) 2) (twoWriters.take 7)).map fun s =>
        decide (s.holder = some 0)) = some true := by
    decide +kernel
  obtain ⟨s, hs, hholder⟩ := Option.map_eq_some_iff.1 hends
  obtain ⟨-, -, hconsole, -⟩ := writes_whole_lines _ _ _ _ ⟨twoWriters.take 7, hs⟩
  exact ⟨s, hs, of_decide_eq_true hholder, hconsole⟩

end HttpsServer.Logger
