import HttpsServer.History
import HttpsServer.Request

/-!
# HttpsServer.Request.HeaderMap

`Headers` as a map whose names are compared without case.

The names are folded in `set` and once more in every lookup; what carries the
agreement is that the map stores, under folded names only, the last value set
under each since the last `clear` (`Follows`).
-/

namespace HttpsServer.Headers

/-- The operations that change a header map. -/
inductive Call where
  | set (name value : Bytes)
  | clear

def Call.edit : Call → Edit (Bytes × Bytes)
  | .set name value => .add (name, value)
  | .clear => .clear

def call (h : Headers) : Call → Headers
  | .set name value => h.set name value
  | .clear => h.clear

/-- A header map after these operations. -/
def after (calls : List Call) : Headers := calls.foldl call {}

/-- The names and values set since the last `clear`. -/
def assigned (calls : List Call) : List (Bytes × Bytes) := entries (calls.map Call.edit)

/-- The name of an assignment, without case. -/
def foldedName (e : Bytes × Bytes) : Bytes := lowercase e.1

/-- The value of the last assignment to this name. -/
def lastValue (name : Bytes) (es : List (Bytes × Bytes)) : Option Bytes :=
  (lastUnder foldedName (lowercase name) es).map Prod.snd

/-- The map stores the last value under every folded name. -/
def Follows (h : Headers) (es : List (Bytes × Bytes)) : Prop :=
  ∀ k, h.storage.lookup k = (lastUnder foldedName k es).map Prod.snd

theorem Follows.call {h : Headers} {es : List (Bytes × Bytes)} (hf : h.Follows es) (c : Call) :
    (h.call c).Follows (c.edit.apply es) := by
  cases c with
  | set name value => exact Stores.insert hf (name, value)
  | clear => exact Stores.empty

theorem follows_after (calls : List Call) : (after calls).Follows (assigned calls) :=
  simulates_entries (R := Follows) (fun _ => rfl) (fun _ _ c hf => hf.call c) calls

/-- **A header map is a map whose names are compared without case**, after
every sequence of operations. -/
theorem after_eq_lastValue (calls : List Call) :
    (∀ name, (after calls).get name = lastValue name (assigned calls)) ∧
    (∀ name fallback,
      (after calls).valueOr name fallback = (lastValue name (assigned calls)).getD fallback) ∧
    (∀ name, (after calls).contains name = (lastValue name (assigned calls)).isSome) ∧
    (after calls).size = ((assigned calls).map foldedName).dedup.length ∧
    ∀ e ∈ (after calls).all, lowercase e.1 = e.1 := by
  have hf := follows_after calls
  have hget : ∀ name, (after calls).get name = lastValue name (assigned calls) :=
    fun name => hf (lowercase name)
  refine ⟨hget, fun name fallback => ?_, fun name => ?_, ?_, ?_⟩
  · rw [valueOr, hget]
  · rw [contains, hget]
  · exact Stores.length hf
  · exact fun e he => @lowercase_of_mem_all _ e.1 e.2 he

/-- Two names that differ in case only share an entry. -/
example : (after [.set (ascii "Host") (ascii "a"), .set (ascii "HOST") (ascii "b")]).all =
    [(ascii "host", ascii "b")] := by decide

end HttpsServer.Headers
