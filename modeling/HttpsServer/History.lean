import Mathlib.Data.List.AList
import Mathlib.Data.List.Dedup
import Mathlib.Data.List.Find
import Mathlib.Data.List.Induction
import Mathlib.Data.List.Perm.Basic

/-!
# HttpsServer.History

Containers that are only added to and cleared, over arbitrary entries.

A use of such a container is a list of `Edit`s.  What it ought to hold are the
`entries` of that history: those added since the last `clear`, in their order.

* `simulates_entries` — an implementation that follows one edit at a time
  follows the history;
* `lastUnder` / `firstUnder` — the two ways to look up a key that several
  entries share: a later entry replaces an earlier one, or is shadowed by it;
* `Stores` — a finite map in which each assignment replaces the one before;
* `entries_append` — what each part of a history contributes;
* `firstUnder_entries_perm` — where an order of additions does not matter.
-/

namespace HttpsServer

open scoped List

variable {α β σ κ : Type*}

inductive Edit (α : Type*) where
  | add (entry : α)
  | clear

/-- The entries after one more edit. -/
def Edit.apply (es : List α) : Edit α → List α
  | .add entry => es ++ [entry]
  | .clear => []

/-- The entries added since the last `clear`. -/
def entries (edits : List (Edit α)) : List α := edits.foldl Edit.apply []

@[simp] theorem entries_nil : entries ([] : List (Edit α)) = [] := rfl

/-- **Simulation**: what holds of an empty container and is kept by every
operation holds of a container and the entries of its history. -/
theorem simulates_entries {R : σ → List α → Prop} {step : σ → β → σ} {edit : β → Edit α} {s : σ}
    (hinit : R s []) (hstep : ∀ s es b, R s es → R (step s b) ((edit b).apply es)) (bs : List β) :
    R (bs.foldl step s) (entries (bs.map edit)) := by
  suffices hfrom : ∀ s es, R s es → R (bs.foldl step s) ((bs.map edit).foldl Edit.apply es) from
    hfrom s [] hinit
  intro s es h
  induction bs generalizing s es with
  | nil => exact h
  | cons b bs ih => exact ih _ _ (hstep s es b h)

/-! ## Looking up -/

section Keys

variable [DecidableEq κ] (key : α → κ)

/-- The last entry with this key. -/
def lastUnder (k : κ) (es : List α) : Option α := (es.filter fun e => key e = k).getLast?

/-- The first entry with this key. -/
def firstUnder (k : κ) (es : List α) : Option α := es.find? fun e => key e = k

/-- A later entry replaces an earlier one. -/
theorem lastUnder_append_singleton (k : κ) (es : List α) (e : α) :
    lastUnder key k (es ++ [e]) = if key e = k then some e else lastUnder key k es := by
  by_cases h : key e = k <;> simp [lastUnder, List.filter_append, h]

/-- A later entry is shadowed by an earlier one. -/
theorem firstUnder_append (k : κ) (es fs : List α) :
    firstUnder key k (es ++ fs) = (firstUnder key k es).or (firstUnder key k fs) :=
  List.find?_append

theorem lastUnder_eq_none_iff {k : κ} {es : List α} :
    lastUnder key k es = none ↔ k ∉ es.map key := by
  simp [lastUnder]

theorem isSome_lastUnder {k : κ} {es : List α} :
    (lastUnder key k es).isSome = true ↔ k ∈ es.map key := by
  rw [Option.isSome_iff_ne_none, ne_eq, lastUnder_eq_none_iff, not_not]

theorem firstUnder_eq_none_iff {k : κ} {es : List α} :
    firstUnder key k es = none ↔ k ∉ es.map key := by
  simp [firstUnder, List.find?_eq_none]

theorem lastUnder_eq_some {k : κ} {es : List α} {e : α} (h : lastUnder key k es = some e) :
    e ∈ es ∧ key e = k := by
  have hmem := List.mem_filter.1 (List.mem_of_getLast? h)
  exact ⟨hmem.1, of_decide_eq_true hmem.2⟩

/-- The last entry under a coarser key is the last one under its own key. -/
theorem lastUnder_refine {κ' : Type*} [DecidableEq κ'] {coarse : α → κ'}
    (hcoarse : ∀ e f, key e = key f → coarse e = coarse f) {k : κ'} {es : List α} {e : α}
    (h : lastUnder coarse k es = some e) : lastUnder key (key e) es = some e := by
  induction es using List.reverseRecOn with
  | nil => cases h
  | append_singleton es x ih =>
      have hk := (lastUnder_eq_some coarse h).2
      rw [lastUnder_append_singleton] at h ⊢
      by_cases hx : coarse x = k
      · rw [if_pos hx] at h
        rw [Option.some.inj h, if_pos rfl]
      · rw [if_neg hx] at h
        rw [if_neg fun hkey => hx ((hcoarse x e hkey).trans hk), ih h]

/-- Two ways to look up that agree on the entries find the same. -/
theorem lastUnder_congr {κ' : Type*} [DecidableEq κ'] {key' : α → κ'} {k : κ} {k' : κ'}
    {es : List α} (h : ∀ e ∈ es, key e = k ↔ key' e = k') :
    lastUnder key k es = lastUnder key' k' es := by
  unfold lastUnder
  congr 1
  exact List.filter_congr fun e he => decide_eq_decide.2 (h e he)

/-- A list that holds every key once is as long as there are distinct keys. -/
theorem length_eq_dedup {ks : List κ} {es : List α} (hnodup : ks.Nodup)
    (hmem : ∀ k, k ∈ ks ↔ k ∈ es.map key) : ks.length = (es.map key).dedup.length :=
  ((List.perm_ext_iff_of_nodup hnodup (List.nodup_dedup _)).mpr fun k => by
    rw [hmem, List.mem_dedup]).length_eq

/-- Renaming the keys one by one leaves their number. -/
theorem length_dedup_rename {κ' : Type*} [DecidableEq κ'] (rename : κ → κ') {es : List α}
    (hinj : ∀ e ∈ es, ∀ f ∈ es, rename (key e) = rename (key f) → key e = key f) :
    (es.map fun e => rename (key e)).dedup.length = (es.map key).dedup.length := by
  have hlen : ((es.map key).dedup.map rename).length = (es.map key).dedup.length := List.length_map _
  rw [← hlen]
  refine (length_eq_dedup (fun e => rename (key e)) (List.Nodup.map_on ?_ (List.nodup_dedup _))
    fun k => ?_).symm
  · intro k hk l hl
    obtain ⟨e, he, rfl⟩ := List.mem_map.1 (List.mem_dedup.1 hk)
    obtain ⟨f, hf, rfl⟩ := List.mem_map.1 (List.mem_dedup.1 hl)
    exact hinj e he f hf
  · simp [List.mem_map]

/-- Where no key occurs twice, the order does not matter. -/
theorem firstUnder_perm {es fs : List α} (hperm : es ~ fs) (hnodup : (es.map key).Nodup) (k : κ) :
    firstUnder key k es = firstUnder key k fs := by
  refine List.find?_eq_find?_of_perm hperm ?_
  rintro e ⟨he, hek⟩ f ⟨hf, hfk⟩
  refine List.inj_on_of_nodup_map hnodup he hf ?_
  rw [of_decide_eq_true hek, of_decide_eq_true hfk]

end Keys

/-! ## Maps -/

section Maps

variable [DecidableEq κ] {ν : Type*}

/-- The map has, under every key, the value of the last entry with that key. -/
def Stores (key : α → κ) (value : α → ν) (m : AList fun _ : κ => ν) (es : List α) : Prop :=
  ∀ k, m.lookup k = (lastUnder key k es).map value

variable {key : α → κ} {value : α → ν} {m : AList fun _ : κ => ν} {es : List α}

theorem Stores.empty : Stores key value ∅ [] := fun k => AList.lookup_empty k

theorem Stores.insert (h : Stores key value m es) (e : α) :
    Stores key value (m.insert (key e) (value e)) (es ++ [e]) := by
  intro k
  rw [lastUnder_append_singleton]
  by_cases hk : key e = k
  · subst hk
    rw [AList.lookup_insert, if_pos rfl]
    rfl
  · rw [AList.lookup_insert_ne (Ne.symm hk), if_neg hk]
    exact h k

/-- The keys of the map are those of the entries. -/
theorem Stores.mem_keys_iff (h : Stores key value m es) (k : κ) :
    k ∈ m.keys ↔ k ∈ es.map key := by
  rw [← AList.mem_keys, ← AList.lookup_isSome, h k, Option.isSome_map, isSome_lastUnder]

/-- The map has as many entries as there are distinct keys. -/
theorem Stores.length (h : Stores key value m es) :
    m.entries.length = (es.map key).dedup.length := by
  rw [← length_eq_dedup key m.keys_nodup h.mem_keys_iff]
  exact (List.length_map _).symm

end Maps

/-! ## Parts of a history -/

def Edit.keeps : Edit α → Bool
  | .add _ => true
  | .clear => false

/-- Edits follow on what is there as long as none of them clears it. -/
theorem foldl_apply (edits : List (Edit α)) (es : List α) :
    edits.foldl Edit.apply es = (if edits.all Edit.keeps then es else []) ++ entries edits := by
  induction edits generalizing es with
  | nil => simp
  | cons e edits ih =>
      have hentries : entries (e :: edits) = edits.foldl Edit.apply (e.apply []) := rfl
      rw [List.foldl_cons, hentries, ih, ih (e.apply []), List.all_cons]
      cases e with
      | add x => cases edits.all Edit.keeps <;> simp [Edit.apply, Edit.keeps]
      | clear => cases edits.all Edit.keeps <;> simp [Edit.apply, Edit.keeps]

theorem entries_append (edits more : List (Edit α)) :
    entries (edits ++ more) =
      (if more.all Edit.keeps then entries edits else []) ++ entries more := by
  rw [entries, List.foldl_append, foldl_apply more]
  rfl

theorem entries_adds (es : List α) : entries (es.map Edit.add) = es := by
  have hadd : ∀ es fs : List α, (es.map Edit.add).foldl Edit.apply fs = fs ++ es := by
    intro es
    induction es with
    | nil => simp
    | cons e es ih => intro fs; simp [Edit.apply, ih]
  exact hadd es []

/-- What a run of additions contributes, wherever it stands. -/
theorem entries_append_adds (before after : List (Edit α)) (es : List α) :
    entries (before ++ es.map Edit.add ++ after) =
      (if after.all Edit.keeps then entries before ++ es else []) ++ entries after := by
  have hkeeps : (es.map Edit.add).all Edit.keeps = true := by simp [Edit.keeps]
  rw [entries_append, entries_append before, hkeeps, if_pos rfl, entries_adds]

/-- Additions in another order. -/
theorem entries_perm (before after : List (Edit α)) {es fs : List α} (h : es ~ fs) :
    entries (before ++ es.map Edit.add ++ after) ~ entries (before ++ fs.map Edit.add ++ after) := by
  rw [entries_append_adds, entries_append_adds]
  split
  · exact (h.append_left _).append_right _
  · exact .refl _

/-- **Additions under different keys commute**, wherever they stand. -/
theorem firstUnder_entries_perm [DecidableEq κ] (key : α → κ) (before after : List (Edit α))
    {es fs : List α} (h : es ~ fs) (hnodup : (es.map key).Nodup) (k : κ) :
    firstUnder key k (entries (before ++ es.map Edit.add ++ after)) =
      firstUnder key k (entries (before ++ fs.map Edit.add ++ after)) := by
  rw [entries_append_adds, entries_append_adds]
  split
  · simp only [firstUnder_append, firstUnder_perm key h hnodup]
  · rfl

end HttpsServer
