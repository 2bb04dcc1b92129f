import Mathlib.Data.List.Basic

/-!
# HttpsServer.Growable

A vector that moves when it grows, and the pointers into it.

The elements stand in one block of memory.  `push` constructs an element in
that block while there is room, and else moves all of them to a new block;
`clear` destroys the elements and keeps the block.  A pointer names a block and
an index in it, and every element has the number of its construction, so that
"what a pointer was taken of is still there" can be said of a block that is
filled anew.

* `deref_push` and `Lost.of_push` settle what a `push` does to a pointer;
* `Lost.of_clear` does so for `clear`;
* `Lost.push` and `Lost.clear` say that what is lost stays lost.
-/

namespace HttpsServer

variable {α : Type*}

/-- An element, with the number it was constructed under. -/
structure Object (α : Type*) where
  birth : Nat
  value : α
  deriving DecidableEq

/-- The place of an element. -/
structure Pointer where
  block : Nat
  index : Nat
  deriving DecidableEq

structure Growable (α : Type*) where
  /-- The number of the block in use; a freed block does not come back. -/
  block : Nat
  capacity : Nat
  objects : List (Object α)
  /-- How many elements have been constructed so far. -/
  births : Nat
  fits : objects.length ≤ capacity
  born : ∀ o ∈ objects, o.birth < births

namespace Growable

variable (v : Growable α)

def values : List α := v.objects.map Object.value

/-- There is room for one more. -/
def HasRoom : Prop := v.objects.length < v.capacity

instance : Decidable v.HasRoom := inferInstanceAs (Decidable (_ < _))

/-- What stands at a place. -/
def deref (p : Pointer) : Option (Object α) :=
  if p.block = v.block then v.objects[p.index]? else none

/-- `push_back`; `slack` is what a new block holds beyond what is needed. -/
def push (x : α) (slack : Nat) : Growable α where
  block := if v.HasRoom then v.block else v.block + 1
  capacity := if v.HasRoom then v.capacity else v.objects.length + 1 + slack
  objects := v.objects ++ [⟨v.births, x⟩]
  births := v.births + 1
  fits := by
    rw [List.length_append, List.length_singleton]
    split
    · next hroom => exact hroom
    · exact Nat.le_add_right _ _
  born := by
    intro o ho
    cases List.mem_append.mp ho with
    | inl hbefore => exact Nat.lt_succ_of_lt (v.born o hbefore)
    | inr hnew =>
        rw [List.mem_singleton.mp hnew]
        exact Nat.lt_succ_self _

/-- `clear` -/
def clear : Growable α where
  block := v.block
  capacity := v.capacity
  objects := []
  births := v.births
  fits := Nat.zero_le _
  born := nofun

/-- `find_if`: the first element that meets `p`, and its place. -/
def locate (p : α → Bool) : Option (Pointer × Object α) :=
  (v.objects.findIdx? fun o => p o.value).bind fun i =>
    v.objects[i]?.map fun o => (⟨v.block, i⟩, o)

variable {v}

@[simp] theorem values_push (x : α) (slack : Nat) : (v.push x slack).values = v.values ++ [x] := by
  simp [values, push]

@[simp] theorem values_clear : v.clear.values = [] := rfl

theorem locate_eq_some {p : α → Bool} {q : Pointer} {o : Object α}
    (h : v.locate p = some (q, o)) : v.deref q = some o ∧ v.values.find? p = some o.value := by
  obtain ⟨i, hi, hmap⟩ := Option.bind_eq_some_iff.mp h
  obtain ⟨o', ho, he⟩ := Option.map_eq_some_iff.mp hmap
  cases he
  refine ⟨by simp [deref, ho], ?_⟩
  obtain ⟨hlt, hp, hfirst⟩ := List.findIdx?_eq_some_iff_getElem.mp hi
  obtain ⟨_, rfl⟩ := List.getElem?_eq_some_iff.mp ho
  have hfind : v.objects.find? (p ∘ Object.value) = some v.objects[i] :=
    List.find?_eq_some_iff_getElem.mpr ⟨hp, i, hlt, rfl, fun j hj => by simpa using hfirst j hj⟩
  rw [values, List.find?_map, hfind]
  rfl

theorem locate_eq_none {p : α → Bool} (h : v.locate p = none) : v.values.find? p = none := by
  cases hi : v.objects.findIdx? (fun o => p o.value) with
  | none =>
      rw [List.findIdx?_eq_none_iff] at hi
      rw [List.find?_eq_none]
      intro x hx
      obtain ⟨o, ho, rfl⟩ := List.mem_map.mp hx
      simp [hi o ho]
  | some i =>
      obtain ⟨hlt, -⟩ := List.findIdx?_eq_some_iff_getElem.mp hi
      simp [locate, hi, List.getElem?_eq_getElem hlt] at h

theorem isSome_locate (p : α → Bool) : (v.locate p).isSome = (v.values.find? p).isSome := by
  cases h : v.locate p with
  | none =>
      rw [locate_eq_none h]
      rfl
  | some found =>
      rw [(locate_eq_some h).2]
      rfl

/-! ## Pointers -/

theorem mem_of_deref {p : Pointer} {o : Object α} (h : v.deref p = some o) :
    p.block = v.block ∧ o ∈ v.objects := by
  unfold deref at h
  split at h
  · next hblock => exact ⟨hblock, List.mem_of_getElem? h⟩
  · contradiction

/-- While there is room, `push` leaves what a pointer points to. -/
theorem deref_push {p : Pointer} {o : Object α} (h : v.deref p = some o) (hroom : v.HasRoom)
    (x : α) (slack : Nat) : (v.push x slack).deref p = some o := by
  obtain ⟨hblock, -⟩ := mem_of_deref h
  rw [deref, if_pos hblock] at h
  have hlt := (List.getElem?_eq_some_iff.mp h).1
  simp [deref, push, hroom, hblock, List.getElem?_append_left hlt, h]

variable (v) in
/-- The element is no longer at its place, and will not be there again. -/
def Lost (p : Pointer) (o : Object α) : Prop :=
  p.block < v.block ∨ o.birth < v.births ∧ ∀ o' ∈ v.objects, o'.birth ≠ o.birth

variable {p : Pointer} {o : Object α}

theorem Lost.deref_ne (h : v.Lost p o) : v.deref p ≠ some o := by
  intro hderef
  obtain ⟨hblock, hmem⟩ := mem_of_deref hderef
  cases h with
  | inl hold => omega
  | inr hgone => exact hgone.2 o hmem rfl

theorem Lost.of_push (h : v.deref p = some o) (hroom : ¬ v.HasRoom) (x : α) (slack : Nat) :
    (v.push x slack).Lost p o := by
  obtain ⟨hblock, -⟩ := mem_of_deref h
  refine .inl ?_
  simp only [push, if_neg hroom]
  omega

theorem Lost.of_clear (h : v.deref p = some o) : v.clear.Lost p o :=
  .inr ⟨v.born o (mem_of_deref h).2, nofun⟩

theorem Lost.push (h : v.Lost p o) (x : α) (slack : Nat) : (v.push x slack).Lost p o := by
  cases h with
  | inl hold =>
      refine .inl ?_
      simp only [Growable.push]
      split <;> omega
  | inr hgone =>
      refine .inr ⟨Nat.lt_succ_of_lt hgone.1, fun o' ho' => ?_⟩
      cases List.mem_append.mp ho' with
      | inl hbefore => exact hgone.2 o' hbefore
      | inr hnew =>
          rw [List.mem_singleton.mp hnew]
          exact Nat.ne_of_gt hgone.1

theorem Lost.clear (h : v.Lost p o) : v.clear.Lost p o :=
  h.imp_right fun hgone => ⟨hgone.1, nofun⟩

end Growable

end HttpsServer
