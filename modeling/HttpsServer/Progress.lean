import Mathlib.Algebra.GroupWithZero.Nat
import HttpsServer.Machine

/-!
# HttpsServer.Progress

Runs that come to an end.

A safety statement says what a machine never does; the rules here say what it
gets done.  A measure of the work that is left pays for the steps of a run:
what a step spends it takes out of that work, or out of what is brought in from
outside (`run_spend_le`).  A machine whose own steps all spend something gets
into a state without such a step, whichever it takes first
(`exists_run_stuck`).
-/

namespace HttpsServer.Machine

variable {σ α : Type*} {M : Machine σ α}

/-- No action of the kind `P` is enabled. -/
def Stuck (M : Machine σ α) (P : α → Prop) (s : σ) : Prop := ∀ a, P a → M.step s a = none

/-- **Accounting rule**: where every step spends (`f`) no more than the work it
finds (`l`) and what it brings in (`g`), a run spends no more than all of this
together. -/
theorem run_spend_le {I : σ → Prop} {l : σ → Nat} {f g : α → Nat}
    (hstep : ∀ s a t, I s → M.step s a = some t → I t ∧ f a + l t ≤ l s + g a)
    {s t : σ} {as : List α} (h : M.run s as = some t) (hs : I s) :
    (as.map f).sum + l t ≤ l s + (as.map g).sum := by
  induction as generalizing s with
  | nil =>
      cases h
      simp
  | cons a as ih =>
      obtain ⟨s', hs', hrun⟩ := run_cons_eq_some.1 h
      obtain ⟨hI, hfirst⟩ := hstep s a s' hs hs'
      have hrest := ih hrun hI
      simp only [List.map_cons, List.sum_cons]
      omega

/-- A run of steps that all use up work (`l`) is no longer than the work it finds. -/
theorem run_length_le {I : σ → Prop} {P : α → Prop} {l : σ → Nat}
    (hstep : ∀ s a t, I s → P a → M.step s a = some t → I t ∧ l t < l s) {s t : σ} {as : List α}
    (h : M.run s as = some t) (has : ∀ a ∈ as, P a) (hs : I s) : as.length + l t ≤ l s := by
  induction as generalizing s with
  | nil =>
      cases h
      simp
  | cons a as ih =>
      obtain ⟨s', hs', hrun⟩ := run_cons_eq_some.1 h
      obtain ⟨hI, hless⟩ := hstep s a s' hs (has a List.mem_cons_self) hs'
      have hrest := ih hrun (fun b hb => has b (List.mem_cons_of_mem a hb)) hI
      rw [List.length_cons]
      omega

/-- **Exhaustion rule**: a machine whose steps of the kind `P` all use up work
(`l`) runs out of such steps. -/
theorem exists_run_stuck {I : σ → Prop} {P : α → Prop} {l : σ → Nat}
    (hstep : ∀ s a t, I s → P a → M.step s a = some t → I t ∧ l t < l s) {s : σ}
    (hs : I s) :
    ∃ as t, M.run s as = some t ∧ (∀ a ∈ as, P a) ∧ I t ∧ M.Stuck P t := by
  -- on the work that is left
  generalize hw : l s = w
  induction w using Nat.strongRecOn generalizing s with
  | ind w ih =>
      by_cases hstuck : M.Stuck P s
      · exact ⟨[], s, rfl, by simp, hs, hstuck⟩
      · simp only [Stuck, not_forall] at hstuck
        obtain ⟨a, ha, henabled⟩ := hstuck
        obtain ⟨s', hs'⟩ := Option.ne_none_iff_exists'.1 henabled
        obtain ⟨hI, hless⟩ := hstep s a s' hs ha hs'
        obtain ⟨as, t, hrun, has, ht, hend⟩ := ih (l s') (hw ▸ hless) hI rfl
        refine ⟨a :: as, t, run_cons_eq_some.2 ⟨s', hs', hrun⟩, ?_, ht, hend⟩
        exact List.forall_mem_cons.2 ⟨ha, has⟩

/-- What is spent one at a time is the number of the steps that spend. -/
theorem sum_map_ite_one (p : α → Bool) (as : List α) :
    (as.map fun a => if p a then 1 else 0).sum = as.countP p := by
  induction as with
  | nil => rfl
  | cons a as ih =>
      rw [List.map_cons, List.sum_cons, List.countP_cons, ih, Nat.add_comm]

end HttpsServer.Machine
