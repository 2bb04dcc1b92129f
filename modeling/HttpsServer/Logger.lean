import HttpsServer.Bytes
import HttpsServer.Machine
import HttpsServer.Slots

/-!
# HttpsServer.Logger

`utils::Logger` and the threads that share it, as a machine.

`log` reads `minimum_level_` without the lock; `write` holds `mutex_` from the
timestamp to the flush of the file.  Between the two, and between the pieces in
which a line reaches `std::cerr` and the file, other threads take their steps.

Two histories accompany the state: the calls as `enabled` has decided them, and
the entries whose line has been built.  No step reads them.
-/

namespace HttpsServer

inductive LogLevel where
  | trace
  | debug
  | info
  | warning
  | error
  | critical
  | off
  deriving DecidableEq, Repr

/-- `to_string` -/
def LogLevel.toString : LogLevel → Bytes
  | trace => ascii "TRACE"
  | debug => ascii "DEBUG"
  | info => ascii "INFO"
  | warning => ascii "WARNING"
  | error => ascii "ERROR"
  | critical => ascii "CRITICAL"
  | off => ascii "OFF"

/-- The value of the enumerator, by which `enabled` compares. -/
def LogLevel.value : LogLevel → Nat
  | trace => 0
  | debug => 1
  | info => 2
  | warning => 3
  | error => 4
  | critical => 5
  | off => 6

def logLevelFromString (level : Bytes) : LogLevel :=
  if level = ascii "trace" then .trace
  else if level = ascii "debug" then .debug
  else if level = ascii "warning" then .warning
  else if level = ascii "error" then .error
  else if level = ascii "critical" then .critical
  else if level = ascii "off" then .off
  else .info

/-- A level is read back from its own text in small letters. -/
theorem logLevelFromString_toString (level : LogLevel) :
    logLevelFromString (lowercase level.toString) = level := by
  cases level <;> decide

namespace Logger

/-! ## Lines -/

/-- What `localtime_r` leaves in a `std::tm`: the year counts from 1900, the
month from 0. -/
structure Tm where
  tmYear : Nat
  tmMon : Fin 12
  tmMday : Fin 32
  tmHour : Fin 24
  tmMin : Fin 60
  tmSec : Fin 61
  deriving DecidableEq

/-- A number below 100 in two digits. -/
def twoDigits (n : Nat) : Bytes := [(48 + n / 10).toUInt8, (48 + n % 10).toUInt8]

/-- `format_timestamp`: `std::put_time` with `%Y-%m-%d %H:%M:%S`. -/
def formatTimestamp (tm : Tm) : Bytes :=
  toDecimal (tm.tmYear + 1900) ++ 45 :: twoDigits (tm.tmMon + 1) ++ 45 :: twoDigits tm.tmMday ++
    32 :: twoDigits tm.tmHour ++ 58 :: twoDigits tm.tmMin ++ 58 :: twoDigits tm.tmSec

/-- What `write` builds in `out`. -/
def formatLine (tm : Tm) (level : LogLevel) (message : Bytes) : Bytes :=
  ascii "[" ++ formatTimestamp tm ++ ascii "] [" ++ level.toString ++ ascii "] " ++ message ++ [LF]

/-! ## State -/

/-- A call of `log`. -/
structure Call where
  level : LogLevel
  message : Bytes
  deriving DecidableEq

def trace (message : Bytes) : Call := ⟨.trace, message⟩
def debug (message : Bytes) : Call := ⟨.debug, message⟩
def info (message : Bytes) : Call := ⟨.info, message⟩
def warning (message : Bytes) : Call := ⟨.warning, message⟩
def error (message : Bytes) : Call := ⟨.error, message⟩
def critical (message : Bytes) : Call := ⟨.critical, message⟩

/-- Where a thread that uses the logger stands. -/
inductive Position where
  | idle
  /-- In `log`, about to ask `enabled`. -/
  | entered (call : Call)
  /-- In `write`, about to lock `mutex_`. -/
  | waiting (call : Call)
  /-- About to take the time and to build the line. -/
  | locked (call : Call)
  /-- In `std::cerr << out.str()`, with `rest` still to be written. -/
  | printing (line rest : Bytes)
  /-- About to look whether there is an open file. -/
  | printed (line : Bytes)
  /-- About to call `file_->flush()`. -/
  | filed
  /-- About to release the lock. -/
  | done
  deriving DecidableEq

/-- `*file_`: what lies in the buffer of the stream, and what is in the file. -/
structure LogFile where
  isOpen : Bool
  buffer : Bytes
  disk : Bytes
  deriving DecidableEq

/-- The call of a thread as `enabled` has found it. -/
structure Check where
  thread : Nat
  call : Call
  minimum : LogLevel
  deriving DecidableEq

/-- What a thread has built a line of. -/
structure Entry where
  thread : Nat
  tm : Tm
  call : Call
  deriving DecidableEq

def Entry.line (e : Entry) : Bytes := formatLine e.tm e.call.level e.call.message

structure State where
  minimumLevel : LogLevel
  file : Option LogFile
  /-- The thread that holds `mutex_`. -/
  holder : Option Nat
  threads : List Position
  /-- What has been written to `std::cerr`. -/
  console : Bytes
  /-- The calls `enabled` has decided so far, in that order. -/
  checked : List Check
  /-- The entries whose line has been built so far, in that order. -/
  entries : List Entry
  deriving DecidableEq

/-- What the constructor makes of `log_file`; `contents` is what the file it
opens for appending holds, if it can be opened. -/
def openFile (logFile : Bytes) (contents : Option Bytes) : Option LogFile :=
  if logFile = [] then none
  else
    match contents with
    | some disk => some { isOpen := true, buffer := [], disk := disk }
    | none => some { isOpen := false, buffer := [], disk := [] }

/-- A new logger and `n` threads; without a log file it is the logger of the
first constructor. -/
def State.initial (minimumLevel : LogLevel) (logFile : Bytes) (contents : Option Bytes) (n : Nat) :
    State where
  minimumLevel := minimumLevel
  file := openFile logFile contents
  holder := none
  threads := List.replicate n .idle
  console := []
  checked := []
  entries := []

def State.enabled (s : State) (level : LogLevel) : Bool := s.minimumLevel.value ≤ level.value

/-- `*file_ << line`: the line enters the buffer, and `n` bytes of the buffer
leave it for the file. -/
def LogFile.insert (f : LogFile) (line : Bytes) (n : Nat) : LogFile where
  isOpen := f.isOpen
  buffer := (f.buffer ++ line).drop n
  disk := f.disk ++ (f.buffer ++ line).take n

def LogFile.flush (f : LogFile) : LogFile where
  isOpen := f.isOpen
  buffer := []
  disk := f.disk ++ f.buffer

/-! ## Steps -/

/-- The steps of thread `i`. -/
inductive Action where
  /-- It calls `log`. -/
  | log (i : Nat) (call : Call)
  /-- `enabled(level)` -/
  | check (i : Nat)
  /-- It gets `mutex_`. -/
  | lock (i : Nat)
  /-- It builds the line with this time. -/
  | format (i : Nat) (tm : Tm)
  /-- `n` bytes of the line reach `std::cerr`. -/
  | print (i n : Nat)
  /-- `*file_ << out.str()`, of which `n` bytes reach the file. -/
  | insert (i n : Nat)
  /-- `file_->flush()` -/
  | flush (i : Nat)
  /-- It releases `mutex_` and returns. -/
  | unlock (i : Nat)
  /-- `set_level` in some thread. -/
  | setLevel (level : LogLevel)
  deriving DecidableEq

/-- Thread `i` goes to a position. -/
def State.move (s : State) (i : Nat) (p : Position) : State :=
  { s with threads := s.threads.set i p }

def State.step (s : State) : Action → Option State
  | .log i call =>
    match s.threads[i]? with
    | some .idle => some (s.move i (.entered call))
    | _ => none
  | .check i =>
    match s.threads[i]? with
    | some (.entered call) =>
      some { s.move i (if s.enabled call.level then .waiting call else .idle) with
        checked := s.checked ++ [⟨i, call, s.minimumLevel⟩] }
    | _ => none
  | .lock i =>
    match s.threads[i]?, s.holder with
    | some (.waiting call), none => some { s.move i (.locked call) with holder := some i }
    | _, _ => none
  | .format i tm =>
    match s.threads[i]? with
    | some (.locked call) =>
      let line := formatLine tm call.level call.message
      some { s.move i (.printing line line) with entries := s.entries ++ [⟨i, tm, call⟩] }
    | _ => none
  | .print i n =>
    match s.threads[i]? with
    | some (.printing line rest) =>
      some { s.move i (if rest.drop n = [] then .printed line else .printing line (rest.drop n)) with
        console := s.console ++ rest.take n }
    | _ => none
  | .insert i n =>
    match s.threads[i]?, s.file with
    | some (.printed line), some f =>
      if f.isOpen then some { s.move i .filed with file := some (f.insert line n) }
      else some (s.move i .done)
    | some (.printed _), none => some (s.move i .done)
    | _, _ => none
  | .flush i =>
    match s.threads[i]? with
    | some .filed => some { s.move i .done with file := s.file.map LogFile.flush }
    | _ => none
  | .unlock i =>
    match s.threads[i]? with
    | some .done => some { s.move i .idle with holder := none }
    | _ => none
  | .setLevel level => some { s with minimumLevel := level }

/-- A logger and `n` threads that use it. -/
def machine (minimumLevel : LogLevel) (logFile : Bytes) (contents : Option Bytes) (n : Nat) :
    Machine State Action where
  init := .initial minimumLevel logFile contents n
  step := State.step

/-! ## What a step can do -/

inductive Step (s : State) : Action → State → Prop
  | called {i : Nat} (call : Call) : s.threads[i]? = some .idle →
      Step s (.log i call) (s.move i (.entered call))
  | passed {i : Nat} {call : Call} : s.threads[i]? = some (.entered call) →
      s.minimumLevel.value ≤ call.level.value →
      Step s (.check i)
        { s.move i (.waiting call) with checked := s.checked ++ [⟨i, call, s.minimumLevel⟩] }
  | dropped {i : Nat} {call : Call} : s.threads[i]? = some (.entered call) →
      call.level.value < s.minimumLevel.value →
      Step s (.check i)
        { s.move i .idle with checked := s.checked ++ [⟨i, call, s.minimumLevel⟩] }
  | locked {i : Nat} {call : Call} : s.threads[i]? = some (.waiting call) → s.holder = none →
      Step s (.lock i) { s.move i (.locked call) with holder := some i }
  | formatted {i : Nat} {call : Call} (tm : Tm) : s.threads[i]? = some (.locked call) →
      Step s (.format i tm)
        { s.move i (.printing (Entry.line ⟨i, tm, call⟩) (Entry.line ⟨i, tm, call⟩)) with
          entries := s.entries ++ [⟨i, tm, call⟩] }
  | printed {i n : Nat} {line rest : Bytes} : s.threads[i]? = some (.printing line rest) →
      Step s (.print i n)
        { s.move i (if rest.drop n = [] then .printed line else .printing line (rest.drop n)) with
          console := s.console ++ rest.take n }
  | inserted {i n : Nat} {line : Bytes} {f : LogFile} : s.threads[i]? = some (.printed line) →
      s.file = some f → f.isOpen = true →
      Step s (.insert i n) { s.move i .filed with file := some (f.insert line n) }
  | unfiled {i n : Nat} {line : Bytes} : s.threads[i]? = some (.printed line) →
      (∀ f, s.file = some f → f.isOpen = false) → Step s (.insert i n) (s.move i .done)
  | flushed {i : Nat} : s.threads[i]? = some .filed →
      Step s (.flush i) { s.move i .done with file := s.file.map LogFile.flush }
  | unlocked {i : Nat} : s.threads[i]? = some .done →
      Step s (.unlock i) { s.move i .idle with holder := none }
  | levelSet (level : LogLevel) : Step s (.setLevel level) { s with minimumLevel := level }

theorem Step.of_step {s t : State} {a : Action} (h : s.step a = some t) : Step s a t := by
  cases a with
  | log i call =>
      simp only [State.step] at h
      split at h
      · next hi =>
        cases h
        exact .called call hi
      · contradiction
  | check i =>
      simp only [State.step] at h
      split at h
      · next call hi =>
        cases h
        by_cases hlevel : s.minimumLevel.value ≤ call.level.value
        · simp only [State.enabled, hlevel, decide_true, if_true]
          exact .passed hi hlevel
        · simp only [State.enabled, hlevel, decide_false, Bool.false_eq_true, if_false]
          exact .dropped hi (Nat.lt_of_not_le hlevel)
      · contradiction
  | lock i =>
      simp only [State.step] at h
      split at h
      · next call hi hfree =>
        cases h
        exact .locked hi hfree
      · contradiction
  | format i tm =>
      simp only [State.step] at h
      split at h
      · next call hi =>
        cases h
        exact .formatted tm hi
      · contradiction
  | print i n =>
      simp only [State.step] at h
      split at h
      · next line rest hi =>
        cases h
        exact .printed hi
      · contradiction
  | insert i n =>
      simp only [State.step] at h
      split at h
      · next line f hi hf =>
        split at h
        · next hopen =>
          cases h
          exact .inserted hi hf hopen
        · next hclosed =>
          cases h
          refine .unfiled hi fun g hg => ?_
          obtain rfl : f = g := Option.some.inj (hf.symm.trans hg)
          exact Bool.eq_false_iff.2 hclosed
      · next line hi hf =>
        cases h
        exact .unfiled hi fun g hg => absurd (hf.symm.trans hg) (by simp)
      · contradiction
  | flush i =>
      simp only [State.step] at h
      split at h
      · next hi =>
        cases h
        exact .flushed hi
      · contradiction
  | unlock i =>
      simp only [State.step] at h
      split at h
      · next hi =>
        cases h
        exact .unlocked hi
      · contradiction
  | setLevel level =>
      cases h
      exact .levelSet level

end Logger

end HttpsServer
