import Mathlib.Algebra.Group.Nat.Defs
import Mathlib.Data.List.Infix
import Mathlib.Data.List.DropRight

/-!
# HttpsServer.Search

Searching and cutting lists, over an arbitrary alphabet:

* `findFrom` / `rfindChar` — offsets of occurrences, as `find` and `rfind`
  of a C++ string report them;
* `substr?` — a slice whose start must lie inside the list;
* `strip` — a list without the padding at its two ends;
* `cutPair` — the part before and the part after the first occurrence of a
  two-symbol delimiter;
* `cutBlock` — the lines before the first empty line, and how they end;
* `splitPair` — all pieces between the delimiters.

`cutPair` and `cutBlock` are the compositional forms: what they return is
characterised by concatenation (`cutPair_eq_some`, `cutBlock_closed_iff`,
`cutBlock_unclosed_iff`), and appending symbols to the list changes them in
a known way (`cutPair_append`, `cutBlock_closed_append`,
`cutBlock_unclosed_append`).
-/

namespace HttpsServer

variable {α : Type*}

/-! ## Slices -/

/-- The slice of at most `n` symbols from `pos` on; there is none when
`pos` is past the end. -/
def substr? (xs : List α) (pos n : Nat) : Option (List α) :=
  if pos ≤ xs.length then some ((xs.drop pos).take n) else none

theorem substr?_of_le {xs : List α} {pos : Nat} (h : pos ≤ xs.length) (n : Nat) :
    substr? xs pos n = some ((xs.drop pos).take n) := by
  rw [substr?, if_pos h]

/-! ## Padding -/

/-- Offset of the last symbol that satisfies `p`. -/
def findLastIdx? (p : α → Bool) : List α → Option Nat
  | [] => none
  | x :: xs =>
    match findLastIdx? p xs with
    | some i => some (i + 1)
    | none => if p x then some 0 else none

/-- The part of `xs` between its first and its last symbol that is not
padding; empty when all of it is. -/
def strip (pad : α → Bool) (xs : List α) : List α :=
  match xs.findIdx? (fun x => !pad x), findLastIdx? (fun x => !pad x) xs with
  | some b, some e => (xs.drop b).take (e - b + 1)
  | _, _ => []

/-! ### The stripped list -/

theorem findLastIdx?_append (p : α → Bool) (xs ys : List α) :
    findLastIdx? p (xs ++ ys) =
      match findLastIdx? p ys with
      | some i => some (xs.length + i)
      | none => findLastIdx? p xs := by
  induction xs with
  | nil => cases h : findLastIdx? p ys <;> simp [h, findLastIdx?]
  | cons x xs ih =>
      rw [List.cons_append, findLastIdx?, ih]
      cases h : findLastIdx? p ys with
      | none => simp [findLastIdx?]
      | some i => simp; omega

theorem findLastIdx?_eq_none_iff {p : α → Bool} {xs : List α} :
    findLastIdx? p xs = none ↔ ∀ x ∈ xs, p x = false := by
  induction xs with
  | nil => simp [findLastIdx?]
  | cons x xs ih =>
      rw [findLastIdx?, List.forall_mem_cons, ← ih]
      cases hxs : findLastIdx? p xs with
      | none => simp
      | some i => simp

theorem findLastIdx?_lt {p : α → Bool} {xs : List α} {i : Nat}
    (h : findLastIdx? p xs = some i) : i < xs.length := by
  induction xs generalizing i with
  | nil => simp [findLastIdx?] at h
  | cons x xs ih => grind [findLastIdx?]

theorem findLastIdx?_eq_some {p : α → Bool} {xs : List α} {i : Nat}
    (h : findLastIdx? p xs = some i) : ∃ x, xs[i]? = some x ∧ p x = true := by
  induction xs generalizing i with
  | nil => simp [findLastIdx?] at h
  | cons x xs ih =>
      rw [findLastIdx?] at h
      split at h
      · next j hj =>
        cases h
        simpa using ih hj
      · split at h
        · next hp =>
          cases h
          exact ⟨x, rfl, hp⟩
        · contradiction

/-- Nothing behind the last symbol satisfies `p`. -/
theorem findLastIdx?_drop {p : α → Bool} {xs : List α} {i : Nat} (h : findLastIdx? p xs = some i) :
    ∀ x ∈ xs.drop (i + 1), p x = false := by
  induction xs generalizing i with
  | nil => simp [findLastIdx?] at h
  | cons x xs ih =>
      rw [findLastIdx?] at h
      split at h
      · next j hj =>
        cases h
        exact ih hj
      · next hnone =>
        split at h
        · cases h
          exact findLastIdx?_eq_none_iff.mp hnone
        · contradiction

/-- A list, cut around one of its symbols. -/
theorem append_cons_of_getElem? {xs : List α} {i : Nat} {x : α} (h : xs[i]? = some x) :
    xs = xs.take i ++ x :: xs.drop (i + 1) := by
  obtain ⟨hi, rfl⟩ := List.getElem?_eq_some_iff.mp h
  rw [List.getElem_cons_drop, List.take_append_drop]

/-- What stands before the first `c` and after it is determined by the list. -/
theorem append_cons_inj_of_not_mem {c : α} {xs xs' ys ys' : List α} (hxs : c ∉ xs) (hxs' : c ∉ xs')
    (h : xs ++ c :: ys = xs' ++ c :: ys') : xs = xs' ∧ ys = ys' := by
  induction xs generalizing xs' with
  | nil =>
      cases xs' with
      | nil => exact ⟨rfl, (List.cons.inj h).2⟩
      | cons x xs' => exact absurd (List.cons.inj h).1 (List.ne_of_not_mem_cons hxs')
  | cons x xs ih =>
      cases xs' with
      | nil => exact absurd (List.cons.inj h).1.symm (List.ne_of_not_mem_cons hxs)
      | cons x' xs' =>
          obtain ⟨hhead, hrest⟩ := List.cons.inj h
          obtain ⟨hxs, hys⟩ := ih (List.not_mem_of_not_mem_cons hxs)
            (List.not_mem_of_not_mem_cons hxs') hrest
          exact ⟨hhead ▸ hxs ▸ rfl, hys⟩

/-- A list whose two ends are not padding, with padding around it, strips to
that list. -/
theorem strip_append_append (pad : α → Bool) (l r : List α) {x y : α} {core : List α}
    (hl : ∀ z ∈ l, pad z = true) (hr : ∀ z ∈ r, pad z = true) (hx : pad x = false)
    (hy : pad y = false) (hhead : core.head? = some x) (hlast : core.getLast? = some y) :
    strip pad (l ++ core ++ r) = core := by
  obtain ⟨tl, rfl⟩ := List.head?_eq_some_iff.mp hhead
  obtain ⟨init, hinit⟩ := List.getLast?_eq_some_iff.mp hlast
  have hfirst : (l ++ x :: tl ++ r).findIdx? (fun z => !pad z) = some l.length := by
    have hnone : l.findIdx? (fun z => !pad z) = none := by
      rw [List.findIdx?_eq_none_iff]
      simpa using hl
    rw [List.append_assoc, List.findIdx?_append, hnone]
    simp [List.findIdx?_cons, hx]
  have hend : findLastIdx? (fun z => !pad z) (l ++ x :: tl ++ r) = some (l.length + init.length) := by
    rw [findLastIdx?_append, findLastIdx?_eq_none_iff.mpr (by simpa using hr), hinit,
      findLastIdx?_append, findLastIdx?_append]
    simp [findLastIdx?, hy]
  have hlen : (x :: tl).length = init.length + 1 := by rw [hinit]; simp
  rw [strip, hfirst, hend]
  simp only [List.append_assoc, List.drop_left, Nat.add_sub_cancel_left]
  rw [← hlen, List.take_left]

/-- What is stripped off is padding. -/
theorem exists_strip (pad : α → Bool) (xs : List α) :
    ∃ l r, xs = l ++ strip pad xs ++ r ∧ (∀ z ∈ l, pad z = true) ∧ ∀ z ∈ r, pad z = true := by
  cases hfirst : xs.findIdx? (fun z => !pad z) with
  | none =>
      refine ⟨xs, [], by simp [strip, hfirst], ?_, by simp⟩
      simpa [List.findIdx?_eq_none_iff] using hfirst
  | some b =>
      obtain ⟨hb, hcore, hbefore⟩ := List.findIdx?_eq_some_iff_getElem.mp hfirst
      cases hlast : findLastIdx? (fun z => !pad z) xs with
      | none =>
          have := findLastIdx?_eq_none_iff.mp hlast _ (List.getElem_mem hb)
          rw [hcore] at this
          contradiction
      | some e =>
          have hdrop := findLastIdx?_drop hlast
          have hle : b ≤ e := by
            by_contra hlt
            have hmem : xs[b] ∈ xs.drop (e + 1) :=
              List.mem_drop_iff_getElem.mpr ⟨b - (e + 1), by omega, by grind⟩
            rw [hdrop _ hmem] at hcore
            contradiction
          refine ⟨xs.take b, xs.drop (e + 1), ?_, fun z hz => ?_, fun z hz => by simpa using hdrop z hz⟩
          · have hrest : (xs.drop b).drop (e - b + 1) = xs.drop (e + 1) := by
              rw [List.drop_drop]
              congr 1
              omega
            rw [strip, hfirst, hlast, ← hrest, List.append_assoc, List.take_append_drop,
              List.take_append_drop]
          · obtain ⟨j, hj, rfl⟩ := List.mem_take_iff_getElem.mp hz
            have := hbefore j (by omega)
            simpa using this
/-! ### Stripping piece by piece -/

section Strip

variable {pad : α → Bool}

/-- A list is padding, or it has a symbol that is not. -/
theorem forall_pad_or_exists (pad : α → Bool) (xs : List α) :
    (∀ x ∈ xs, pad x = true) ∨ ∃ l c r, xs = l ++ c :: r ∧ pad c = false := by
  by_cases h : ∀ x ∈ xs, pad x = true
  · exact .inl h
  · push Not at h
    obtain ⟨c, hc, hpad⟩ := h
    obtain ⟨l, r, rfl⟩ := List.append_of_mem hc
    exact .inr ⟨l, c, r, rfl, Bool.eq_false_iff.2 hpad⟩

theorem strip_eq_nil {xs : List α} (h : ∀ x ∈ xs, pad x = true) : strip pad xs = [] := by
  have hnone : xs.findIdx? (fun x => !pad x) = none := by
    rw [List.findIdx?_eq_none_iff]
    simpa using h
  rw [strip, hnone]

/-- The two sides of a symbol that is not padding are stripped at their outer
ends. -/
theorem strip_append_cons (xs : List α) {c : α} (hc : pad c = false) (ys : List α) :
    strip pad (xs ++ c :: ys) = xs.dropWhile pad ++ c :: ys.rdropWhile pad := by
  have hleft : ∀ z ∈ xs.takeWhile pad, pad z = true := fun z hz => List.mem_takeWhile_imp hz
  have hright : ∀ z ∈ ys.rtakeWhile pad, pad z = true := fun z hz => List.mem_rtakeWhile_imp hz
  have hxs : xs.takeWhile pad ++ xs.dropWhile pad = xs := List.takeWhile_append_dropWhile
  have hys : ys.rdropWhile pad ++ ys.rtakeWhile pad = ys := List.rdropWhile_append_rtakeWhile
  have hparts : xs ++ c :: ys =
      xs.takeWhile pad ++ (xs.dropWhile pad ++ c :: ys.rdropWhile pad) ++ ys.rtakeWhile pad := by
    conv => lhs; rw [← hxs, ← hys]
    simp only [List.append_assoc, List.cons_append]
  obtain ⟨x, hx, hxpad⟩ : ∃ x, (xs.dropWhile pad ++ c :: ys.rdropWhile pad).head? = some x ∧
      pad x = false := by
    have hhead := List.head?_dropWhile_not pad xs
    cases h : xs.dropWhile pad with
    | nil => exact ⟨c, rfl, hc⟩
    | cons x l =>
        rw [h] at hhead
        exact ⟨x, rfl, hhead⟩
  obtain ⟨y, hy, hypad⟩ : ∃ y, (xs.dropWhile pad ++ c :: ys.rdropWhile pad).getLast? = some y ∧
      pad y = false := by
    have hlast := List.rdropWhile_last_not pad ys
    cases List.eq_nil_or_concat (ys.rdropWhile pad) with
    | inl h => exact ⟨c, by rw [h]; simp, hc⟩
    | inr h =>
        obtain ⟨init, y, hinit⟩ := h
        refine ⟨y, ?_, ?_⟩
        · rw [hinit, List.concat_eq_append, ← List.cons_append, ← List.append_assoc,
            List.getLast?_concat]
        · simpa [hinit] using hlast
  rw [hparts]
  exact strip_append_append pad _ _ hleft hright hxpad hypad hx hy

theorem dropWhile_append_cons (xs : List α) {c : α} (hc : pad c = false) (ys : List α) :
    (xs ++ c :: ys).dropWhile pad = xs.dropWhile pad ++ c :: ys := by
  rw [List.dropWhile_append]
  cases h : xs.dropWhile pad with
  | nil => simp [hc]
  | cons x l => simp

theorem rdropWhile_append_cons (xs : List α) {c : α} (hc : pad c = false) (ys : List α) :
    (xs ++ c :: ys).rdropWhile pad = xs ++ c :: ys.rdropWhile pad := by
  have h := dropWhile_append_cons ys.reverse hc xs.reverse
  rw [List.rdropWhile, List.rdropWhile]
  simp [h]

theorem strip_dropWhile (pad : α → Bool) (xs : List α) :
    strip pad (xs.dropWhile pad) = strip pad xs := by
  rcases forall_pad_or_exists pad xs with h | ⟨l, c, r, rfl, hc⟩
  · rw [List.dropWhile_eq_nil_iff.2 h, strip_eq_nil h]
    rfl
  · rw [dropWhile_append_cons l hc, strip_append_cons _ hc, strip_append_cons _ hc,
      List.dropWhile_idempotent]

theorem strip_rdropWhile (pad : α → Bool) (xs : List α) :
    strip pad (xs.rdropWhile pad) = strip pad xs := by
  rcases forall_pad_or_exists pad xs with h | ⟨l, c, r, rfl, hc⟩
  · rw [List.rdropWhile_eq_nil_iff.2 h, strip_eq_nil h]
    rfl
  · rw [rdropWhile_append_cons l hc, strip_append_cons _ hc, strip_append_cons _ hc,
      List.rdropWhile_idempotent]

/-- Padding that is added at the end is stripped off again. -/
theorem strip_append_pad (xs : List α) {r : List α} (hr : ∀ x ∈ r, pad x = true) :
    strip pad (xs ++ r) = strip pad xs := by
  rw [← strip_rdropWhile pad (xs ++ r), ← strip_rdropWhile pad xs]
  congr 1
  rw [List.rdropWhile, List.reverse_append, List.dropWhile_append_of_pos (by simpa using hr)]
  rfl

/-- The first symbol of a stripped list is the first that is not padding. -/
theorem head?_strip (pad : α → Bool) (xs : List α) :
    (strip pad xs).head? = (xs.dropWhile pad).head? := by
  rcases forall_pad_or_exists pad xs with h | ⟨l, c, r, rfl, hc⟩
  · rw [strip_eq_nil h, List.dropWhile_eq_nil_iff.2 h]
  · rw [strip_append_cons l hc, dropWhile_append_cons l hc, List.head?_append, List.head?_append]
    rfl

end Strip
/-! ## Pairs and joined lines -/

theorem pair_prefix_cons {a b x : α} {xs : List α} :
    [a, b] <+: x :: xs ↔ x = a ∧ ∃ t, xs = b :: t := by
  cases xs with
  | nil => simp [List.prefix_cons_iff]
  | cons y ys =>
      simp only [List.cons_prefix_cons, List.nil_prefix, and_true, List.cons.injEq]
      constructor
      · rintro ⟨rfl, rfl⟩; exact ⟨rfl, ys, rfl, rfl⟩
      · rintro ⟨rfl, t, rfl, -⟩; exact ⟨rfl, rfl⟩

/-- A list without the delimiter, followed by it: the delimiter is not at its
front, nor does it straddle the end. -/
theorem not_pair_prefix {a b : α} (hab : a ≠ b) {x : α} {l : List α} (hl : ¬ [a, b] <:+: x :: l)
    (r : List α) : ¬ [a, b] <+: x :: (l ++ a :: b :: r) := by
  rw [pair_prefix_cons]
  rintro ⟨rfl, t, ht⟩
  cases l with
  | nil => exact hab (List.cons.inj ht).1
  | cons y l =>
      obtain ⟨rfl, -⟩ := List.cons.inj ht
      exact hl ⟨[], l, by simp⟩

/-- A symbol that is not part of the delimiter keeps the two sides apart. -/
theorem pair_infix_append_cons {a b c : α} (ha : c ≠ a) (hb : c ≠ b) {l r : List α} :
    [a, b] <:+: l ++ c :: r ↔ [a, b] <:+: l ∨ [a, b] <:+: r := by
  induction l with
  | nil => simp [List.infix_cons_iff, Ne.symm ha]
  | cons x l ih =>
      have hfront : [a, b] <+: x :: (l ++ c :: r) ↔ [a, b] <+: x :: l := by
        rw [pair_prefix_cons, pair_prefix_cons]
        cases l with
        | nil => simp [hb]
        | cons y l => simp
      rw [List.cons_append, List.infix_cons_iff, ih, hfront, List.infix_cons_iff, or_assoc]

/-- Lines, each followed by the delimiter. -/
def joinLines (a b : α) (lines : List (List α)) : List α := lines.flatMap (· ++ [a, b])

@[simp] theorem joinLines_nil (a b : α) : joinLines a b [] = [] := rfl

@[simp] theorem joinLines_cons (a b : α) (l : List α) (ls : List (List α)) :
    joinLines a b (l :: ls) = l ++ a :: b :: joinLines a b ls := by
  simp [joinLines]

theorem joinLines_append (a b : α) (ls ms : List (List α)) :
    joinLines a b (ls ++ ms) = joinLines a b ls ++ joinLines a b ms := by
  simp [joinLines]

/-! ## Occurrences -/

section Search

variable [DecidableEq α]

/-- Offset of the first occurrence of `pattern`. -/
def findSub (pattern : List α) : List α → Option Nat
  | [] => if pattern = [] then some 0 else none
  | x :: xs => if pattern <+: x :: xs then some 0 else (findSub pattern xs).map (· + 1)

/-- Offset of the first occurrence of `pattern` at or after `pos`. -/
def findFrom (pattern xs : List α) (pos : Nat) : Option Nat :=
  if pos ≤ xs.length then (findSub pattern (xs.drop pos)).map (· + pos) else none

/-- Offset of the last occurrence of `c`. -/
def rfindChar (c : α) (xs : List α) : Option Nat := findLastIdx? (fun x => x = c) xs

/-- The first occurrence found lies inside the list. -/
theorem findSub_le {pattern xs : List α} {i : Nat} (h : findSub pattern xs = some i) :
    i + pattern.length ≤ xs.length := by
  induction xs generalizing i with
  | nil => grind [findSub]
  | cons x xs ih =>
      rw [findSub] at h
      split at h
      · next hp =>
        cases h
        simpa using hp.length_le
      · cases hs : findSub pattern xs with
        | none => simp [hs] at h
        | some j =>
            have := ih hs
            simp only [hs, Option.map_some, Option.some.injEq] at h
            simp only [List.length_cons]
            omega

theorem findFrom_bounds {pattern xs : List α} {pos i : Nat}
    (h : findFrom pattern xs pos = some i) : pos ≤ i ∧ i + pattern.length ≤ xs.length := by
  unfold findFrom at h
  split at h
  · next hp =>
    cases hs : findSub pattern (xs.drop pos) with
    | none => simp [hs] at h
    | some j =>
        have hle := findSub_le hs
        rw [List.length_drop] at hle
        simp only [hs, Option.map_some, Option.some.injEq] at h
        omega
  · contradiction

theorem rfindChar_lt {c : α} {xs : List α} {i : Nat} (h : rfindChar c xs = some i) :
    i < xs.length := findLastIdx?_lt h

/-- The last occurrence of a symbol, read off a decomposition. -/
theorem rfindChar_append_cons {c : α} (xs : List α) {ys : List α} (h : c ∉ ys) :
    rfindChar c (xs ++ c :: ys) = some xs.length := by
  have hys : findLastIdx? (fun x => decide (x = c)) ys = none :=
    findLastIdx?_eq_none_iff.mpr fun y hy => by
      have hne : y ≠ c := fun e => h (e ▸ hy)
      simpa using hne
  rw [rfindChar, findLastIdx?_append]
  simp [findLastIdx?, hys]

/-- The first occurrence of a symbol, read off a decomposition. -/
theorem idxOf?_append_cons {c : α} {xs ys : List α} (h : c ∉ xs) :
    (xs ++ c :: ys).idxOf? c = some xs.length := by
  induction xs with
  | nil => simp [List.idxOf?_cons]
  | cons x xs ih =>
      have hx : x ≠ c := fun hc => h (by simp [hc])
      have hxs : c ∉ xs := fun hc => h (by simp [hc])
      simp [List.idxOf?_cons, hx, ih hxs]

/-! ## Two-symbol delimiters -/

/-- What stands before and what stands after the first `a` that is followed
by `b`. -/
def cutPair (a b : α) : List α → Option (List α × List α)
  | [] => none
  | x :: xs =>
    if [a, b] <+: x :: xs then some ([], xs.drop 1)
    else (cutPair a b xs).map fun p => (x :: p.1, p.2)

theorem cutPair_eq_none {a b : α} {xs : List α} :
    cutPair a b xs = none ↔ ¬ [a, b] <:+: xs := by
  induction xs with
  | nil => simp [cutPair]
  | cons x xs ih =>
      rw [cutPair, List.infix_cons_iff]
      split
      · next hp => simp [hp]
      · next hp => simp [hp, ih]

/-- Cutting at the delimiter undoes joining with it. -/
theorem cutPair_append_pair {a b : α} (hab : a ≠ b) {l : List α} (hl : ¬ [a, b] <:+: l)
    (r : List α) : cutPair a b (l ++ a :: b :: r) = some (l, r) := by
  induction l with
  | nil => simp [cutPair]
  | cons x l ih =>
      have hx := not_pair_prefix hab hl r
      rw [List.infix_cons_iff, not_or] at hl
      rw [List.cons_append, cutPair, if_neg hx, ih hl.2]
      rfl

/-- The two parts and the delimiter make up the list, and the first part
does not hold the delimiter. -/
theorem cutPair_eq_some {a b : α} (hab : a ≠ b) {xs l r : List α} :
    cutPair a b xs = some (l, r) ↔ xs = l ++ a :: b :: r ∧ ¬ [a, b] <:+: l := by
  constructor
  · intro h
    induction xs generalizing l with
    | nil => simp [cutPair] at h
    | cons x xs ih =>
        rw [cutPair] at h
        split at h
        · next hp =>
          obtain ⟨rfl, t, rfl⟩ := pair_prefix_cons.mp hp
          cases h
          simp
        · next hp =>
          cases hc : cutPair a b xs with
          | none => simp [hc] at h
          | some p =>
              obtain ⟨l', r'⟩ := p
              simp only [hc, Option.map_some, Option.some.injEq, Prod.mk.injEq] at h
              obtain ⟨rfl, rfl⟩ := h
              obtain ⟨rfl, hl'⟩ := ih hc
              refine ⟨rfl, ?_⟩
              rw [List.infix_cons_iff, not_or]
              refine ⟨fun hpre => hp ?_, hl'⟩
              obtain ⟨t, ht⟩ := hpre
              exact ⟨t ++ a :: b :: r', by rw [← List.cons_append, ← ht, List.append_assoc]⟩
  · rintro ⟨rfl, hl⟩
    exact cutPair_append_pair hab hl r

/-- A cut that is there stays where it is when more symbols follow. -/
theorem cutPair_append {a b : α} (hab : a ≠ b) {xs l r : List α}
    (h : cutPair a b xs = some (l, r)) (ys : List α) :
    cutPair a b (xs ++ ys) = some (l, r ++ ys) := by
  obtain ⟨rfl, hl⟩ := (cutPair_eq_some hab).mp h
  rw [List.append_assoc, List.cons_append, List.cons_append]
  exact cutPair_append_pair hab hl _

/-- Searching for the delimiter and cutting at it are the same search. -/
theorem findSub_pair (a b : α) (xs : List α) :
    findSub [a, b] xs = (cutPair a b xs).map fun p => p.1.length := by
  induction xs with
  | nil => simp [findSub, cutPair]
  | cons x xs ih =>
      rw [findSub, cutPair]
      split
      · rfl
      · rw [ih, Option.map_map, Option.map_map]
        rfl

/-! ## Blocks of lines -/

/-- How a block of lines ends: an empty line was met and symbols follow it,
or the list runs out inside the symbols of a line that has no end yet. -/
inductive BlockEnd (α : Type*) where
  | closed (after : List α)
  | unclosed (rest : List α)
  deriving DecidableEq

theorem cutPair_lt {a b : α} {xs l r : List α} (h : cutPair a b xs = some (l, r)) :
    r.length < xs.length := by
  induction xs generalizing l with
  | nil => simp [cutPair] at h
  | cons x xs ih =>
      rw [cutPair] at h
      split at h
      · cases h
        simp only [List.length_drop, List.length_cons]
        omega
      · cases hc : cutPair a b xs with
        | none => simp [hc] at h
        | some p =>
            simp only [hc, Option.map_some, Option.some.injEq, Prod.mk.injEq] at h
            have := ih (l := p.1) (by rw [hc, ← h.2])
            simp only [List.length_cons]
            omega

/-- The lines before the first empty line, each without its delimiter, and
how the block ends. -/
def cutBlock (a b : α) (xs : List α) : List (List α) × BlockEnd α :=
  match _h : cutPair a b xs with
  | none => ([], .unclosed xs)
  | some (line, after) =>
    if line = [] then ([], .closed after)
    else (line :: (cutBlock a b after).1, (cutBlock a b after).2)
termination_by xs.length
decreasing_by all_goals exact cutPair_lt _h

/-- A line of a block: not empty and free of the delimiter. -/
def IsLine (a b : α) (l : List α) : Prop := l ≠ [] ∧ ¬ [a, b] <:+: l

instance (a b : α) (l : List α) : Decidable (IsLine a b l) := by
  unfold IsLine; infer_instance

theorem cutBlock_of_none {a b : α} {xs : List α} (h : cutPair a b xs = none) :
    cutBlock a b xs = ([], .unclosed xs) := by
  rw [cutBlock]
  split
  · rfl
  · simp_all

theorem cutBlock_of_empty {a b : α} {xs after : List α}
    (h : cutPair a b xs = some ([], after)) : cutBlock a b xs = ([], .closed after) := by
  rw [cutBlock]
  split
  · simp_all
  · next h' =>
    rw [h] at h'
    cases h'
    rfl

theorem cutBlock_of_line {a b : α} {xs line after : List α}
    (h : cutPair a b xs = some (line, after)) (hne : line ≠ []) :
    cutBlock a b xs = (line :: (cutBlock a b after).1, (cutBlock a b after).2) := by
  rw [cutBlock]
  split
  · simp_all
  · next h' =>
    rw [h] at h'
    cases h'
    rw [if_neg hne]

/-- A run of lines is cut off in front of whatever follows it. -/
theorem cutBlock_joinLines {a b : α} (hab : a ≠ b) {ls : List (List α)}
    (hls : ∀ l ∈ ls, IsLine a b l) (xs : List α) :
    cutBlock a b (joinLines a b ls ++ xs) =
      (ls ++ (cutBlock a b xs).1, (cutBlock a b xs).2) := by
  induction ls with
  | nil => rfl
  | cons l ls ih =>
      obtain ⟨hne, hl⟩ := hls l (by simp)
      have hcut := cutPair_append_pair hab hl (joinLines a b ls ++ xs)
      rw [joinLines_cons, List.append_assoc, List.cons_append, List.cons_append,
        cutBlock_of_line hcut hne, ih fun m hm => hls m (by simp [hm])]
      rfl

/-- The lines of a block, joined again, are the front of the list; what is
left is the empty line with its followers, or a piece of a line. -/
theorem cutBlock_spec {a b : α} (hab : a ≠ b) (xs : List α) :
    (∀ l ∈ (cutBlock a b xs).1, IsLine a b l) ∧
      match (cutBlock a b xs).2 with
      | .closed after => xs = joinLines a b (cutBlock a b xs).1 ++ a :: b :: after
      | .unclosed rest => xs = joinLines a b (cutBlock a b xs).1 ++ rest ∧ ¬ [a, b] <:+: rest := by
  induction xs using cutBlock.induct (a := a) (b := b) with
  | case1 xs h =>
      rw [cutBlock_of_none h]
      exact ⟨by simp, by simp, cutPair_eq_none.mp h⟩
  | case2 xs after h =>
      rw [cutBlock_of_empty h]
      exact ⟨by simp, ((cutPair_eq_some hab).mp h).1⟩
  | case3 xs line after h hne ih =>
      obtain ⟨rfl, hl⟩ := (cutPair_eq_some hab).mp h
      rw [cutBlock_of_line h hne]
      obtain ⟨hall, hend⟩ := ih
      refine ⟨by simpa using ⟨⟨hne, hl⟩, hall⟩, ?_⟩
      cases hc : (cutBlock a b after).2 with
      | closed rest =>
          rw [hc] at hend
          simp only [joinLines_cons, List.append_assoc, List.cons_append]
          rw [← hend]
      | unclosed rest =>
          rw [hc] at hend
          simp only [joinLines_cons, List.append_assoc, List.cons_append]
          rw [← hend.1]
          exact ⟨rfl, hend.2⟩

theorem cutBlock_closed_iff {a b : α} (hab : a ≠ b) {xs after : List α} {ls : List (List α)} :
    cutBlock a b xs = (ls, .closed after) ↔
      xs = joinLines a b ls ++ a :: b :: after ∧ ∀ l ∈ ls, IsLine a b l := by
  constructor
  · intro h
    have hs := cutBlock_spec hab xs
    rw [h] at hs
    exact ⟨hs.2, hs.1⟩
  · rintro ⟨rfl, hls⟩
    have hcut : cutPair a b (a :: b :: after) = some ([], after) := by
      simpa using cutPair_append_pair hab (l := []) (by simp) after
    rw [cutBlock_joinLines hab hls, cutBlock_of_empty hcut, List.append_nil]

theorem cutBlock_unclosed_iff {a b : α} (hab : a ≠ b) {xs rest : List α} {ls : List (List α)} :
    cutBlock a b xs = (ls, .unclosed rest) ↔
      xs = joinLines a b ls ++ rest ∧ (∀ l ∈ ls, IsLine a b l) ∧ ¬ [a, b] <:+: rest := by
  constructor
  · intro h
    have hs := cutBlock_spec hab xs
    rw [h] at hs
    exact ⟨hs.2.1, hs.1, hs.2.2⟩
  · rintro ⟨rfl, hls, hrest⟩
    rw [cutBlock_joinLines hab hls, cutBlock_of_none (cutPair_eq_none.mpr hrest), List.append_nil]

/-- A closed block stays as it is when more symbols follow. -/
theorem cutBlock_closed_append {a b : α} (hab : a ≠ b) {xs after : List α} {ls : List (List α)}
    (h : cutBlock a b xs = (ls, .closed after)) (ys : List α) :
    cutBlock a b (xs ++ ys) = (ls, .closed (after ++ ys)) := by
  obtain ⟨rfl, hls⟩ := (cutBlock_closed_iff hab).mp h
  rw [cutBlock_closed_iff hab]
  exact ⟨by simp, hls⟩

/-- An unclosed block goes on with the block that its last piece begins. -/
theorem cutBlock_unclosed_append {a b : α} (hab : a ≠ b) {xs rest : List α}
    {ls : List (List α)} (h : cutBlock a b xs = (ls, .unclosed rest)) (ys : List α) :
    cutBlock a b (xs ++ ys) =
      (ls ++ (cutBlock a b (rest ++ ys)).1, (cutBlock a b (rest ++ ys)).2) := by
  obtain ⟨rfl, hls, -⟩ := (cutBlock_unclosed_iff hab).mp h
  rw [List.append_assoc, cutBlock_joinLines hab hls]

/-- Two delimiters in a row close a block, if nothing before them does. -/
theorem cutBlock_append_double {a b : α} (hab : a ≠ b) (xs : List α) :
    ∃ ls after, cutBlock a b (xs ++ [a, b, a, b]) = (ls, .closed after) := by
  have hempty : cutBlock a b [a, b] = ([], .closed []) :=
    (cutBlock_closed_iff hab).mpr ⟨rfl, by simp⟩
  cases hc : cutBlock a b xs with
  | mk ls ending =>
      cases ending with
      | closed after => exact ⟨ls, _, cutBlock_closed_append hab hc _⟩
      | unclosed rest =>
          have hrest := ((cutBlock_unclosed_iff hab).mp hc).2.2
          have hcut := cutPair_append_pair hab hrest [a, b]
          rw [cutBlock_unclosed_append hab hc]
          by_cases hnil : rest = []
          · subst hnil
            rw [cutBlock_of_empty hcut]
            exact ⟨_, _, rfl⟩
          · rw [cutBlock_of_line hcut hnil, hempty]
            exact ⟨_, _, rfl⟩

/-! ## Pieces -/

/-- The pieces between the delimiters. -/
def splitPair (a b : α) (xs : List α) : List (List α) :=
  match _h : cutPair a b xs with
  | none => [xs]
  | some (piece, after) => piece :: splitPair a b after
termination_by xs.length
decreasing_by exact cutPair_lt _h

theorem splitPair_of_none {a b : α} {xs : List α} (h : cutPair a b xs = none) :
    splitPair a b xs = [xs] := by
  rw [splitPair]
  split
  · rfl
  · simp_all

theorem splitPair_of_some {a b : α} {xs piece after : List α}
    (h : cutPair a b xs = some (piece, after)) :
    splitPair a b xs = piece :: splitPair a b after := by
  rw [splitPair]
  split
  · simp_all
  · next h' =>
    rw [h] at h'
    cases h'
    rfl

/-- Splitting undoes joining. -/
theorem splitPair_joinLines_append {a b : α} (hab : a ≠ b) {ls : List (List α)} {last : List α}
    (hls : ∀ l ∈ ls, ¬ [a, b] <:+: l) (hlast : ¬ [a, b] <:+: last) :
    splitPair a b (joinLines a b ls ++ last) = ls ++ [last] := by
  induction ls with
  | nil => exact splitPair_of_none (cutPair_eq_none.mpr hlast)
  | cons l ls ih =>
      have hcut := cutPair_append_pair hab (hls l (by simp)) (joinLines a b ls ++ last)
      rw [joinLines_cons, List.append_assoc, List.cons_append, List.cons_append,
        splitPair_of_some hcut, ih fun m hm => hls m (by simp [hm])]
      rfl

/-- The same for joined lines whose last delimiter is cut off. -/
theorem splitPair_take_joinLines {a b : α} (hab : a ≠ b) {ls : List (List α)} (hne : ls ≠ [])
    (hls : ∀ l ∈ ls, ¬ [a, b] <:+: l) :
    splitPair a b ((joinLines a b ls).take ((joinLines a b ls).length - 2)) = ls := by
  obtain ⟨init, last, rfl⟩ : ∃ init last, ls = init ++ [last] :=
    ⟨_, _, (List.dropLast_append_getLast hne).symm⟩
  have hjoin : joinLines a b (init ++ [last]) = joinLines a b init ++ last ++ [a, b] := by
    simp [joinLines_append]
  rw [hjoin, List.length_append, List.length_cons, List.length_singleton, Nat.add_sub_cancel,
    List.take_left]
  exact splitPair_joinLines_append hab (fun l hl => hls l (by simp [hl])) (hls last (by simp))

/-! ## The first empty line -/

/-- Looking for two delimiters in a row, one line at a time. -/
theorem findSub_double_line {a b : α} (hab : a ≠ b) {l : List α} (hl : ¬ [a, b] <:+: l)
    (xs : List α) :
    findSub [a, b, a, b] (l ++ a :: b :: xs) =
      if [a, b] <+: xs then some l.length
      else (findSub [a, b, a, b] xs).map (· + (l.length + 2)) := by
  induction l with
  | nil =>
      have hb : ¬ [a, b, a, b] <+: b :: xs := by
        rw [List.cons_prefix_cons]
        exact fun h => hab h.1
      have ha : [a, b, a, b] <+: a :: b :: xs ↔ [a, b] <+: xs := by
        simp [List.cons_prefix_cons]
      rw [List.nil_append, findSub]
      simp only [ha]
      split
      · rfl
      · rw [findSub, if_neg hb, Option.map_map]
        rfl
  | cons x l ih =>
      have hx : ¬ [a, b, a, b] <+: x :: (l ++ a :: b :: xs) := fun h =>
        not_pair_prefix hab hl xs (List.IsPrefix.trans ⟨[a, b], rfl⟩ h)
      rw [List.infix_cons_iff, not_or] at hl
      rw [List.cons_append, findSub, if_neg hx, ih hl.2]
      split
      · rfl
      · rw [Option.map_map]
        rfl

/-- **The first two delimiters in a row** are where the block ends. -/
theorem findSub_double {a b : α} (hab : a ≠ b) {ls : List (List α)} (hne : ls ≠ [])
    (hls : ∀ l ∈ ls, IsLine a b l) (after : List α) :
    findSub [a, b, a, b] (joinLines a b ls ++ a :: b :: after) =
      some ((joinLines a b ls).length - 2) := by
  induction ls with
  | nil => contradiction
  | cons l ls ih =>
      rw [joinLines_cons, List.append_assoc, List.cons_append, List.cons_append,
        findSub_double_line hab (hls l (by simp)).2]
      cases ls with
      | nil => simp
      | cons m ms =>
          obtain ⟨hm, hpair⟩ := hls m (by simp)
          obtain ⟨x, m, rfl⟩ := List.exists_cons_of_ne_nil hm
          have hnot : ¬ [a, b] <+: joinLines a b ((x :: m) :: ms) ++ a :: b :: after := by
            rw [joinLines_cons]
            simpa using not_pair_prefix hab hpair (joinLines a b ms ++ a :: b :: after)
          rw [if_neg hnot, ih (by simp) fun k hk => hls k (by simp [hk])]
          simp only [joinLines_cons, Option.map_some, List.length_append, List.length_cons]
          congr 1
          omega

end Search

end HttpsServer
