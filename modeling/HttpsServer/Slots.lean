import Mathlib.Algebra.GroupWithZero.Nat
import Mathlib.Data.List.Nodup
import Mathlib.Data.List.Perm.Basic

/-!
# HttpsServer.Slots

Rows of slots in which one slot changes at a time.

The positions of a program's threads form a list, and a step of thread `i`
writes its slot.  These are the facts a counting or ownership invariant needs
about such a step: how many slots satisfy a predicate, what the slots hold
together, and that a thing held without repetition has one holder.
-/

namespace HttpsServer

open scoped List

variable {α β : Type*}

/-- Writing one slot leaves the others. -/
theorem getElem?_set_slot {l : List α} {i j : Nat} {b x : α} (h : (l.set i b)[j]? = some x) :
    x = b ∨ l[j]? = some x := by
  rw [List.getElem?_set] at h
  split at h
  · split at h
    · exact .inl (Option.some.inj h).symm
    · cases h
  · exact .inr h

/-- A slot whose content is not written over keeps it. -/
theorem getElem?_set_slot_of_ne {l : List α} {i j : Nat} {a b x : α} (hi : l[i]? = some a)
    (hj : l[j]? = some x) (hne : a ≠ x) : (l.set i b)[j]? = some x := by
  have hij : i ≠ j := by
    rintro rfl
    exact hne (Option.some.inj (hi.symm.trans hj))
  rw [List.getElem?_set_ne hij, hj]

/-- A new slot comes behind the others. -/
theorem getElem?_append_slot {l : List α} {j : Nat} {b x : α} (h : (l ++ [b])[j]? = some x) :
    l[j]? = some x ∨ (j = l.length ∧ x = b) := by
  by_cases hj : j < l.length
  · rw [List.getElem?_append_left hj] at h
    exact .inl h
  · have hle := Nat.le_of_not_lt hj
    rw [List.getElem?_append_right hle, List.getElem?_singleton] at h
    split at h
    · next hzero => exact .inr ⟨by omega, (Option.some.inj h).symm⟩
    · cases h

/-- Writing one slot moves a count by what the old and the new content
contribute. -/
theorem countP_set_slot {l : List α} {i : Nat} {a : α} (p : α → Bool) (b : α)
    (h : l[i]? = some a) :
    (l.set i b).countP p + (if p a then 1 else 0) = l.countP p + (if p b then 1 else 0) := by
  obtain ⟨hi, rfl⟩ := List.getElem?_eq_some_iff.1 h
  have hpos : (if p l[i] then 1 else 0) ≤ l.countP p := by
    split
    · next hp => exact List.countP_pos_iff.2 ⟨l[i], List.getElem_mem hi, hp⟩
    · exact Nat.zero_le _
  rw [List.countP_set hi]
  omega

/-- Writing one slot moves a sum by what the old and the new content
contribute. -/
theorem sum_map_set_slot {l : List α} {i : Nat} {a : α} (f : α → Nat) (b : α) (h : l[i]? = some a) :
    ((l.set i b).map f).sum + f a = (l.map f).sum + f b := by
  induction l generalizing i with
  | nil => cases h
  | cons x l ih =>
      cases i with
      | zero =>
          cases h
          simp only [List.set_cons_zero, List.map_cons, List.sum_cons]
          omega
      | succ i =>
          have hrest := ih (by simpa using h)
          simp only [List.set_cons_succ, List.map_cons, List.sum_cons]
          omega

/-- Writing one slot exchanges what the old content held for what the new one
holds. -/
theorem filterMap_set_slot {l : List α} {i : Nat} {a : α} (f : α → Option β) (b : α)
    (h : l[i]? = some a) :
    (f a).toList ++ (l.set i b).filterMap f ~ (f b).toList ++ l.filterMap f := by
  obtain ⟨hi, rfl⟩ := List.getElem?_eq_some_iff.1 h
  have hcons : ∀ (x : α) (xs : List α), (x :: xs).filterMap f = (f x).toList ++ xs.filterMap f := by
    intro x xs
    cases hx : f x with
    | none => simp [hx]
    | some y => simp [hx]
  have hsplit : l.filterMap f = (l.take i).filterMap f ++ ((f l[i]).toList ++
      (l.drop (i + 1)).filterMap f) := by
    rw [← hcons, ← List.filterMap_append, List.getElem_cons_drop, List.take_append_drop]
  rw [List.set_eq_take_append_cons_drop, if_pos hi, List.filterMap_append, hcons, hsplit]
  generalize (l.take i).filterMap f = before, (l.drop (i + 1)).filterMap f = after
  calc (f l[i]).toList ++ (before ++ ((f b).toList ++ after))
      ~ before ++ ((f l[i]).toList ++ ((f b).toList ++ after)) := List.perm_append_comm_assoc ..
    _ ~ before ++ ((f b).toList ++ ((f l[i]).toList ++ after)) :=
        (List.perm_append_comm_assoc ..).append_left _
    _ ~ (f b).toList ++ (before ++ ((f l[i]).toList ++ after)) := List.perm_append_comm_assoc ..

/-- A slot that holds the same keeps the others where they are. -/
theorem filterMap_set_of_eq {l : List α} {i : Nat} {a : α} (f : α → Option β) (b : α)
    (h : l[i]? = some a) (hb : f b = f a) : (l.set i b).filterMap f = l.filterMap f := by
  induction l generalizing i with
  | nil => rfl
  | cons x l ih =>
      cases i with
      | zero =>
          cases h
          rw [List.set_cons_zero, List.filterMap_cons, List.filterMap_cons, hb]
      | succ i =>
          rw [List.set_cons_succ, List.filterMap_cons, List.filterMap_cons, ih (by simpa using h)]

/-- What a slot holds has its place among what all of them hold, and is exchanged
in that place. -/
theorem filterMap_slot {l : List α} {i : Nat} {a : α} {x : β} (f : α → Option β)
    (h : l[i]? = some a) (ha : f a = some x) :
    (l.filterMap f)[((l.take i).filterMap f).length]? = some x ∧
      ∀ b y, f b = some y → (l.set i b).filterMap f =
        (l.filterMap f).set ((l.take i).filterMap f).length y := by
  induction l generalizing i with
  | nil => cases h
  | cons z l ih =>
      cases i with
      | zero =>
          cases h
          rw [List.filterMap_cons_some ha]
          refine ⟨rfl, fun b y hb => ?_⟩
          rw [List.set_cons_zero, List.filterMap_cons_some hb]
          rfl
      | succ i =>
          obtain ⟨hget, hset⟩ := ih (by simpa using h)
          rw [List.take_succ_cons]
          cases hz : f z with
          | none =>
              rw [List.filterMap_cons_none hz, List.filterMap_cons_none hz]
              refine ⟨hget, fun b y hb => ?_⟩
              rw [List.set_cons_succ, List.filterMap_cons_none hz, hset b y hb]
          | some w =>
              rw [List.filterMap_cons_some hz, List.filterMap_cons_some hz]
              refine ⟨hget, fun b y hb => ?_⟩
              rw [List.set_cons_succ, List.filterMap_cons_some hz, hset b y hb]
              rfl

/-- Handing a thing from one slot to another leaves what the slots hold
together. -/
theorem filterMap_move_slot {l : List α} {i j : Nat} {a b : α} (a' b' : α) {f : α → Option β}
    (hij : i ≠ j) (hi : l[i]? = some a) (hj : l[j]? = some b) (ha : f a = none) (ha' : f a' = f b)
    (hb' : f b' = none) : ((l.set i a').set j b').filterMap f ~ l.filterMap f := by
  have hfirst := filterMap_set_slot f a' hi
  have hsecond := filterMap_set_slot f b' (l := l.set i a') (by rw [List.getElem?_set_ne hij, hj])
  rw [ha, ha', Option.toList_none, List.nil_append] at hfirst
  rw [hb', Option.toList_none, List.nil_append] at hsecond
  exact (List.perm_append_left_iff _).1 (hsecond.trans hfirst)

/-- A thing held without repetition is held by one slot only. -/
theorem slot_unique_of_nodup {l : List α} {f : α → Option β} (h : (l.filterMap f).Nodup)
    {i j : Nat} {a b : α} {x : β} (hi : l[i]? = some a) (hj : l[j]? = some b) (ha : f a = some x)
    (hb : f b = some x) : i = j := by
  induction l generalizing i j with
  | nil => simp at hi
  | cons y ys ih =>
      have hmem : ∀ {k : Nat} {c : α}, ys[k]? = some c → f c = some x → x ∈ ys.filterMap f :=
        fun hk hc => List.mem_filterMap.2 ⟨_, List.mem_of_getElem? hk, hc⟩
      rw [List.filterMap_cons] at h
      cases i with
      | zero =>
          cases j with
          | zero => rfl
          | succ j =>
              exfalso
              obtain rfl : y = a := by simpa using hi
              rw [ha] at h
              exact (List.nodup_cons.1 h).1 (hmem (by simpa using hj) hb)
      | succ i =>
          cases j with
          | zero =>
              exfalso
              obtain rfl : y = b := by simpa using hj
              rw [hb] at h
              exact (List.nodup_cons.1 h).1 (hmem (by simpa using hi) ha)
          | succ j =>
              have hys : (ys.filterMap f).Nodup := by
                cases hy : f y with
                | none => simpa [hy] using h
                | some z => exact (List.nodup_cons.1 (by simpa [hy] using h)).2
              have hij : i = j := ih hys (by simpa using hi) (by simpa using hj)
              rw [hij]

end HttpsServer
