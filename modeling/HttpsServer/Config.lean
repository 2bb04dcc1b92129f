import Mathlib.Data.List.AList
import HttpsServer.Bytes

/-!
# HttpsServer.Config

`utils::Config` (`config.hpp`, `config.cpp`): the INI-style reader, its lookups
and its conversions.

`std::unordered_map` is an `AList`, as in `HttpsServer.Request`.  An operation
that throws while it changes the object returns the object as the exception
leaves it.
-/

namespace HttpsServer

/-- The exceptions of `Config`, with their texts. -/
inductive ConfigError where
  | runtimeError (what : Bytes)
  | outOfRange (what : Bytes)
  deriving DecidableEq

/-- `std::getline` on a text until it fails: a line ends before its `\n` or at
the end of the text, and nothing is read where nothing is left. -/
def getLines : Bytes → List Bytes
  | [] => []
  | b :: rest =>
    if b = LF then [] :: getLines rest
    else
      match getLines rest with
      | [] => [[b]]
      | line :: lines => (b :: line) :: lines

namespace Config

/-- `make_key` -/
def makeKey (sect key : Bytes) : Bytes := sect ++ 46 :: key

/-- `trim`; the file has a second function of this name with the same body. -/
def trim (value : Bytes) : Bytes := trimBlanks value

theorem made_of_mem_empty :
    ∀ k ∈ (∅ : AList fun _ : Bytes => Bytes), ∃ sect key, k = makeKey sect key :=
  fun k hk => absurd hk (AList.notMem_empty k)

end Config

/-- The members of a `Config`; every key was built by `make_key`. -/
structure Config where
  values : AList (fun _ : Bytes => Bytes) := ∅
  made : ∀ k ∈ values, ∃ sect key, k = Config.makeKey sect key := by
    exact Config.made_of_mem_empty
  deriving DecidableEq

namespace Config

/-! ## Lookups -/

/-- What `values_.find(make_key(section, key))` finds. -/
def find (c : Config) (sect key : Bytes) : Option Bytes := c.values.lookup (makeKey sect key)

def contains (c : Config) (sect key : Bytes) : Bool := (c.find sect key).isSome

def get (c : Config) (sect key : Bytes) : Except ConfigError Bytes :=
  match c.find sect key with
  | none => .error (.outOfRange (ascii "Missing configuration value"))
  | some value => .ok value

def getOr (c : Config) (sect key fallback : Bytes) : Bytes :=
  match c.get sect key with
  | .ok value => value
  | .error _ => fallback

def size (c : Config) : Nat := c.values.entries.length

/-! ## Conversions -/

def getInt (c : Config) (sect key : Bytes) : Except ConfigError Int := do
  let value ← c.get sect key
  match stoi value with
  | some n => .ok n
  | none => .error (.runtimeError (ascii "Invalid integer value for " ++ sect ++ ascii "." ++ key))

def getIntOr (c : Config) (sect key : Bytes) (fallback : Int) : Int :=
  match c.getInt sect key with
  | .ok n => n
  | .error _ => fallback

def getBool (c : Config) (sect key : Bytes) : Except ConfigError Bool := do
  let value := lowercase (← c.get sect key)
  if value = ascii "true" ∨ value = ascii "yes" ∨ value = ascii "on" ∨ value = ascii "1" then
    .ok true
  else if value = ascii "false" ∨ value = ascii "no" ∨ value = ascii "off" ∨ value = ascii "0" then
    .ok false
  else .error (.runtimeError (ascii "Invalid boolean value for " ++ sect ++ ascii "." ++ key))

def getBoolOr (c : Config) (sect key : Bytes) (fallback : Bool) : Bool :=
  match c.getBool sect key with
  | .ok b => b
  | .error _ => fallback

/-! ## Changes -/

def set (c : Config) (sect key value : Bytes) : Config where
  values := c.values.insert (makeKey sect key) value
  made := by
    intro k hk
    cases (AList.mem_insert c.values).mp hk with
    | inl he => exact ⟨sect, key, he⟩
    | inr hmem => exact c.made k hmem

def clear (_ : Config) : Config := {}

/-! ## Reading -/

/-- `parse_line`: the configuration and the current section after it.  Where
it throws it has changed neither. -/
def parseLine (c : Config) (line currentSection : Bytes) (lineNumber : Nat) :
    Except ConfigError (Config × Bytes) :=
  let trimmed := trim line
  if trimmed = [] ∨ trimmed.head? = some 35 ∨ trimmed.head? = some 59 then .ok (c, currentSection)
  else if trimmed.head? = some 91 ∧ trimmed.getLast? = some 93 then
    .ok (c, (trimmed.drop 1).take (trimmed.length - 2))
  else
    match trimmed.idxOf? 61 with
    | none =>
      .error (.runtimeError (ascii "Invalid configuration line at " ++ toDecimal lineNumber))
    | some pos =>
      let key := trim (trimmed.take pos)
      let value := trim (trimmed.drop (pos + 1))
      if currentSection = [] then
        .error (.runtimeError
          (ascii "Configuration key without section at line " ++ toDecimal lineNumber))
      else .ok (c.set currentSection key value, currentSection)

/-- The loop of `load_from_string` after `lineNumber` lines, with the exception
that ends it. -/
def readLines (c : Config) (currentSection : Bytes) (lineNumber : Nat) :
    List Bytes → Config × Option ConfigError
  | [] => (c, none)
  | line :: lines =>
    match c.parseLine line currentSection (lineNumber + 1) with
    | .error e => (c, some e)
    | .ok (c, currentSection) => readLines c currentSection (lineNumber + 1) lines

def loadFromString (c : Config) (contents : Bytes) : Config × Option ConfigError :=
  c.clear.readLines [] 0 (getLines contents)

/-- `load`; `file` is what the file holds, or `none` when it cannot be
opened. -/
def load (c : Config) (filename : Bytes) (file : Option Bytes) : Config × Option ConfigError :=
  match file with
  | none => (c, some (.runtimeError (ascii "Unable to open configuration file: " ++ filename)))
  | some contents => c.loadFromString contents

/-! ## Lookups after changes -/

theorem find_set (c : Config) (sect key value sect' key' : Bytes) :
    (c.set sect key value).find sect' key' =
      if makeKey sect' key' = makeKey sect key then some value else c.find sect' key' := by
  unfold find set
  split
  · next he => rw [he]; exact AList.lookup_insert _
  · next he => exact AList.lookup_insert_ne he

theorem contains_eq (c : Config) (sect key : Bytes) :
    c.contains sect key = (c.find sect key).isSome := rfl

theorem get_eq_ok_iff {c : Config} {sect key value : Bytes} :
    c.get sect key = .ok value ↔ c.find sect key = some value := by
  unfold get
  cases c.find sect key <;> simp

/-- `get` tells apart what the lookup tells apart. -/
theorem get_eq_get_iff {c c' : Config} {sect key : Bytes} :
    c.get sect key = c'.get sect key ↔ c.find sect key = c'.find sect key := by
  constructor
  · intro h
    refine Option.ext fun value => ?_
    rw [← get_eq_ok_iff, ← get_eq_ok_iff, h]
  · intro h
    unfold get
    rw [h]

end Config

end HttpsServer
