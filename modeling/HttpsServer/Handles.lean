import HttpsServer.Slots

/-!
# HttpsServer.Handles

Handles that a library hands out and takes back.

A handle is named by its place in the order of creation.  The table knows which
ones are live, and whether a call has been made on one that is not; `Keeps` says
that the live ones are exactly those of a list, each in it once, and that no
such call has been made.
-/

namespace HttpsServer

open scoped List

/-- The handles created so far. -/
structure Handles where
  /-- Whether each of them has not been freed. -/
  live : List Bool := []
  /-- A call was made on a handle that is not live. -/
  misused : Bool := false
  deriving DecidableEq

namespace Handles

def Live (h : Handles) (k : Nat) : Prop := h.live[k]? = some true

instance (h : Handles) (k : Nat) : Decidable (h.Live k) := inferInstanceAs (Decidable (_ = _))

/-- The next handle. -/
def next (h : Handles) : Nat := h.live.length

def create (h : Handles) : Handles where
  live := h.live ++ [true]
  misused := h.misused

/-- A call on a handle. -/
def touch (h : Handles) (k : Nat) : Handles where
  live := h.live
  misused := h.misused || decide (¬ h.Live k)

def free (h : Handles) (k : Nat) : Handles where
  live := h.live.set k false
  misused := h.misused || decide (¬ h.Live k)

/-- The live handles are those of the list, and none has been misused. -/
structure Keeps (h : Handles) (held : List Nat) : Prop where
  nodup : held.Nodup
  live : ∀ k, k ∈ held ↔ h.Live k
  used : h.misused = false

namespace Keeps

variable {h : Handles} {held held' : List Nat} {k : Nat}

theorem empty : Keeps {} [] where
  nodup := .nil
  live := fun k => by simp [Live]
  used := rfl

theorem perm (hk : Keeps h held) (hperm : held ~ held') : Keeps h held' where
  nodup := hperm.nodup_iff.1 hk.nodup
  live := fun k => by rw [← hperm.mem_iff, hk.live k]
  used := hk.used

theorem next_not_mem (hk : Keeps h held) : h.next ∉ held := fun hmem => by
  have hlive := (hk.live _).1 hmem
  simp [Live, next] at hlive

theorem create (hk : Keeps h held) : Keeps h.create (h.next :: held) where
  nodup := List.nodup_cons.2 ⟨hk.next_not_mem, hk.nodup⟩
  live := fun k => by
    rw [List.mem_cons, hk.live k, Live, Live, Handles.create, next]
    by_cases hlt : k < h.live.length
    · rw [List.getElem?_append_left hlt]
      exact ⟨fun hmem => hmem.resolve_left (Nat.ne_of_lt hlt), .inr⟩
    · have hle := Nat.le_of_not_lt hlt
      rw [List.getElem?_append_right hle, List.getElem?_eq_none hle]
      by_cases heq : k = h.live.length
      · simp [heq]
      · have hsub : k - h.live.length ≠ 0 := by omega
        simp [heq, hsub]
  used := hk.used

theorem touch (hk : Keeps h held) (hmem : k ∈ held) : Keeps (h.touch k) held where
  nodup := hk.nodup
  live := hk.live
  used := by
    have hlive := (hk.live k).1 hmem
    simp [Handles.touch, hk.used, hlive]

theorem free (hk : Keeps h (k :: held)) : Keeps (h.free k) held where
  nodup := (List.nodup_cons.1 hk.nodup).2
  live := fun j => by
    have hlive := hk.live j
    rw [List.mem_cons] at hlive
    rw [Live, Handles.free, List.getElem?_set]
    by_cases hj : k = j
    · subst hj
      have hgone := (List.nodup_cons.1 hk.nodup).1
      rw [if_pos rfl]
      refine ⟨fun hmem => absurd hmem hgone, fun hset => ?_⟩
      split at hset <;> cases hset
    · rw [if_neg hj]
      exact ⟨fun hmem => hlive.1 (.inr hmem), fun hmem => (hlive.2 hmem).resolve_left (Ne.symm hj)⟩
  used := by
    have hlive := (hk.live k).1 List.mem_cons_self
    simp [Handles.free, hk.used, hlive]

end Keeps

end Handles

end HttpsServer
