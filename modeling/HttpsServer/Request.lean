import Mathlib.Data.List.AList
import HttpsServer.Bytes

/-!
# HttpsServer.Request

The data an HTTP request is made of: methods, versions, parse errors and
limits (`http_types.hpp`), the header map and the request itself
(`request.hpp`, `request.cpp`).

`std::unordered_map` is an `AList`: keys are unique by construction, and a
later assignment to a key replaces the earlier one.
-/

namespace HttpsServer

/-! ## http_types -/

inductive HttpMethod where
  | get | post | put | delete | patch | head | options | unknown
  deriving DecidableEq

inductive HttpVersion where
  | http10 | http11 | unknown
  deriving DecidableEq

inductive ParseError where
  | none
  | invalidRequestLine
  | invalidMethod
  | invalidTarget
  | invalidVersion
  | invalidHeader
  | headerTooLarge
  | requestLineTooLarge
  | bodyTooLarge
  | invalidContentLength
  | incompleteRequest
  deriving DecidableEq

/-- The limits the parser enforces; each is a `std::size_t`. -/
structure ParseLimits where
  maxRequestLineSize : UInt64 := 8192
  maxHeaderSize : UInt64 := 16384
  maxBodySize : UInt64 := 10 * 1024 * 1024

/-- `to_string` of a method. -/
def HttpMethod.toString : HttpMethod → Bytes
  | .get => ascii "GET"
  | .post => ascii "POST"
  | .put => ascii "PUT"
  | .delete => ascii "DELETE"
  | .patch => ascii "PATCH"
  | .head => ascii "HEAD"
  | .options => ascii "OPTIONS"
  | .unknown => ascii "UNKNOWN"

/-- `to_string` of a version. -/
def HttpVersion.toString : HttpVersion → Bytes
  | .http10 => ascii "HTTP/1.0"
  | .http11 => ascii "HTTP/1.1"
  | .unknown => ascii "UNKNOWN"

def methodFromString (method : Bytes) : HttpMethod :=
  let value := lowercase method
  if value = ascii "get" then .get
  else if value = ascii "post" then .post
  else if value = ascii "put" then .put
  else if value = ascii "delete" then .delete
  else if value = ascii "patch" then .patch
  else if value = ascii "head" then .head
  else if value = ascii "options" then .options
  else .unknown

def versionFromString (version : Bytes) : HttpVersion :=
  if version = ascii "HTTP/1.0" then .http10
  else if version = ascii "HTTP/1.1" then .http11
  else .unknown

/-- Both directions agree on every version the parser accepts. -/
theorem versionFromString_eq {s : Bytes} {v : HttpVersion} (hv : v ≠ .unknown) :
    versionFromString s = v ↔ s = v.toString := by
  unfold versionFromString
  constructor
  · intro h
    split at h
    · next hs => subst h; exact hs
    · split at h
      · next hs => subst h; exact hs
      · exact absurd h.symm hv
  · rintro rfl
    cases v with
    | http10 => decide
    | http11 => decide
    | unknown => contradiction

theorem methodFromString_toString (m : HttpMethod) : methodFromString m.toString = m := by
  cases m <;> decide

/-- No method has a name of less than three letters. -/
theorem three_le_of_methodFromString {s : Bytes} (h : methodFromString s ≠ .unknown) :
    3 ≤ s.length := by
  have hlen : (lowercase s).length = s.length := List.length_map ..
  rw [← hlen]
  unfold methodFromString at h
  by_contra hlt
  have hne : ∀ m : Bytes, 3 ≤ m.length → lowercase s ≠ m := fun m hm he => hlt (he ▸ hm)
  refine h ?_
  simp only
  repeat
    rw [if_neg (hne _ (by decide))]

/-- A method name has only letters in it. -/
theorem notMem_of_methodFromString {s : Bytes} (h : methodFromString s ≠ .unknown) {b : UInt8}
    (hb : b < 65) : b ∉ s := by
  intro hmem
  have hlow : b ∈ lowercase s :=
    List.mem_map.mpr ⟨b, hmem, if_neg fun hupper => absurd hb (UInt8.not_lt.mpr hupper.1)⟩
  have hne : ∀ m : Bytes, m.all (fun c => 65 ≤ c) = true → lowercase s ≠ m := fun m hm he =>
    absurd hb (UInt8.not_lt.mpr (of_decide_eq_true (List.all_eq_true.mp hm b (he ▸ hlow))))
  unfold methodFromString at h
  refine h ?_
  simp only
  repeat
    rw [if_neg (hne _ (by decide))]

/-! ## Headers -/

theorem lowercase_of_mem_empty :
    ∀ k ∈ (∅ : AList fun _ : Bytes => Bytes), lowercase k = k :=
  fun k hk => absurd hk (AList.notMem_empty k)

/-- The header map; every key was lower-cased by `set`. -/
structure Headers where
  storage : AList (fun _ : Bytes => Bytes) := ∅
  lowered : ∀ k ∈ storage, lowercase k = k := by exact lowercase_of_mem_empty
  deriving DecidableEq

namespace Headers

def set (h : Headers) (name value : Bytes) : Headers where
  storage := h.storage.insert (lowercase name) value
  lowered := by
    intro k hk
    cases (AList.mem_insert h.storage).mp hk with
    | inl he => rw [he, lowercase_lowercase]
    | inr hmem => exact h.lowered k hmem

/-- The value under `name`, in any letter case; `none` for the null pointer. -/
def get (h : Headers) (name : Bytes) : Option Bytes := h.storage.lookup (lowercase name)

def contains (h : Headers) (name : Bytes) : Bool := (h.get name).isSome

def valueOr (h : Headers) (name : Bytes) (fallback : Bytes := []) : Bytes :=
  (h.get name).getD fallback

/-- The stored pairs.  The order in which an `unordered_map` is iterated is
unspecified; the entries of the `AList` stand for it. -/
def all (h : Headers) : List (Bytes × Bytes) := h.storage.entries.map fun e => (e.1, e.2)

def clear (_ : Headers) : Headers := {}

def size (h : Headers) : Nat := h.storage.entries.length

@[simp] theorem get_empty (name : Bytes) : get {} name = none := rfl

theorem get_set (h : Headers) (name value name' : Bytes) :
    (h.set name value).get name' =
      if lowercase name' = lowercase name then some value else h.get name' := by
  unfold get set
  split
  · next he => rw [he]; exact AList.lookup_insert _
  · next he => exact AList.lookup_insert_ne he

theorem mem_all {h : Headers} {name value : Bytes} :
    (name, value) ∈ h.all ↔ h.storage.lookup name = some value := by
  rw [← Option.mem_def, AList.mem_lookup_iff, all, List.mem_map]
  constructor
  · rintro ⟨⟨k, v⟩, hmem, he⟩
    cases he
    exact hmem
  · exact fun hmem => ⟨⟨name, value⟩, hmem, rfl⟩

/-- No name is stored twice. -/
theorem nodup_all (h : Headers) : (h.all.map Prod.fst).Nodup := by
  have hkeys : (h.storage.entries.map Sigma.fst).Nodup := h.storage.nodupKeys
  rwa [all, List.map_map]

theorem lowercase_of_mem_all {h : Headers} {name value : Bytes} (hmem : (name, value) ∈ h.all) :
    lowercase name = name := by
  refine h.lowered name (AList.lookup_isSome.mp ?_)
  rw [mem_all.mp hmem]
  rfl

end Headers

/-! ## HttpRequest -/

structure HttpRequest where
  method : HttpMethod := .unknown
  target : Bytes := []
  version : HttpVersion := .unknown
  headers : Headers := {}
  body : Bytes := []
  deriving DecidableEq

namespace HttpRequest

/-- The target up to its first `?`. -/
def path (r : HttpRequest) : Bytes :=
  match r.target.idxOf? 63 with
  | none => r.target
  | some pos => r.target.take pos

def keepAlive (r : HttpRequest) : Bool :=
  match r.headers.get (ascii "Connection") with
  | some connection =>
    let value := trimBlanks connection
    value = [] || lowercase value ≠ ascii "close"
  | none => r.version = .http11

end HttpRequest

end HttpsServer
