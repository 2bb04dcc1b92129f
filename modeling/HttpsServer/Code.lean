import Mathlib.Data.List.Basic

/-!
# HttpsServer.Code

Texts written word by word, and readers that take them apart from the left,
over arbitrary alphabets.

* `Spells` — a text is a word for each symbol of another one, where a symbol
  may have several words;
* `Spells.decode` — a reader that takes every word off the front of any text
  recovers what the words stand for, wherever the words end;
* `Spells.exists_word` — a position of the text lies in one of its words;
* `replaceAll` — left-to-right replacement after a table.
-/

namespace HttpsServer

variable {α β γ : Type*}

/-- `t` is a word (`P`) for each symbol of `s`, one after the other. -/
inductive Spells (P : α → List β → Prop) : List α → List β → Prop
  | nil : Spells P [] []
  | cons {a : α} {s : List α} {w t : List β} : P a w → Spells P s t → Spells P (a :: s) (w ++ t)

theorem spells_flatMap (word : α → List β) (s : List α) :
    Spells (fun a w => w = word a) s (s.flatMap word) := by
  induction s with
  | nil => exact .nil
  | cons a s ih => exact .cons rfl ih

namespace Spells

variable {P : α → List β → Prop} {s : List α} {t : List β}

/-- **Decoding**: what a reader makes of the words one by one, it makes of the
text. -/
theorem decode {d : List β → List γ} {f : α → List γ} (hnil : d [] = [])
    (hword : ∀ a w rest, P a w → d (w ++ rest) = f a ++ d rest) (h : Spells P s t) :
    d t = s.flatMap f := by
  induction h with
  | nil => exact hnil
  | cons hw _ ih => rw [hword _ _ _ hw, ih, List.flatMap_cons]

/-- What holds of the symbols of every word holds of those of the text. -/
theorem forall_mem {Q : β → Prop} (hword : ∀ a w, P a w → ∀ b ∈ w, Q b) (h : Spells P s t) :
    ∀ b ∈ t, Q b := by
  induction h with
  | nil => exact fun b hb => absurd hb List.not_mem_nil
  | cons hw _ ih =>
      intro b hb
      cases List.mem_append.1 hb with
      | inl hmem => exact hword _ _ hw b hmem
      | inr hmem => exact ih b hmem

/-- A position of the text lies in a word, `k` symbols after its beginning. -/
theorem exists_word {i : Nat} {b : β} (h : Spells P s t) (hi : t[i]? = some b) :
    ∃ a w k rest, P a w ∧ w[k]? = some b ∧ k ≤ i ∧ t.drop (i - k) = w ++ rest := by
  induction h generalizing i with
  | nil => cases hi
  | @cons a s w t hw _ ih =>
      by_cases hlt : i < w.length
      · rw [List.getElem?_append_left hlt] at hi
        exact ⟨a, w, i, t, hw, hi, Nat.le_refl i, by rw [Nat.sub_self, List.drop_zero]⟩
      · rw [List.getElem?_append_right (Nat.not_lt.1 hlt)] at hi
        obtain ⟨a', w', k, rest, hw', hk, hle, hdrop⟩ := ih hi
        have hsub : i - k = w.length + (i - w.length - k) := by omega
        refine ⟨a', w', k, rest, hw', hk, by omega, ?_⟩
        rw [hsub, ← List.drop_drop, List.drop_left, hdrop]

end Spells

/-! ## Replacement -/

/-- Left-to-right replacement: where a pattern of the table begins, what the
table has for it is written and the reading goes on after the pattern; any
other symbol is copied. -/
def replaceAll [BEq α] (table : List (List α × α)) : List α → List α
  | [] => []
  | a :: s =>
    match table.find? fun entry => entry.1.isPrefixOf (a :: s) with
    | some (pattern, b) => b :: replaceAll table (s.drop (pattern.length - 1))
    | none => a :: replaceAll table s
termination_by s => s.length
decreasing_by
  · simp only [List.length_cons, List.length_drop]
    omega
  · exact Nat.lt_succ_self _

section Replacement

variable [BEq α] {table : List (List α × α)}

@[simp] theorem replaceAll_nil : replaceAll table [] = [] := by rw [replaceAll]

/-- A pattern is replaced where it begins. -/
theorem replaceAll_pattern {a b : α} {w rest : List α}
    (h : table.find? (fun entry => entry.1.isPrefixOf (a :: (w ++ rest))) = some (a :: w, b)) :
    replaceAll table (a :: w ++ rest) = b :: replaceAll table rest := by
  rw [List.cons_append, replaceAll, h]
  simp

/-- A symbol that begins no pattern is copied. -/
theorem replaceAll_copy {a : α} {rest : List α}
    (h : ∀ entry ∈ table, ∃ b, entry.1.head? = some b ∧ (b == a) = false) :
    replaceAll table (a :: rest) = a :: replaceAll table rest := by
  have hnone : table.find? (fun entry => entry.1.isPrefixOf (a :: rest)) = none := by
    refine List.find?_eq_none.2 fun entry hmem => ?_
    obtain ⟨b, hb, hne⟩ := h entry hmem
    obtain ⟨pattern, hpattern⟩ := List.head?_eq_some_iff.1 hb
    rw [hpattern, List.isPrefixOf_cons_cons, hne]
    exact Bool.false_ne_true
  rw [replaceAll, hnone]

end Replacement

end HttpsServer
