import Mathlib.Data.List.Basic

/-!
# HttpsServer.Machine

Machines that take one action at a time, and what holds along their runs.

The threads of a program are one machine: an action says which thread moves
and what the scheduler, the network or a callee decided for it, and a run is a
list of actions, so that a statement about every run is a statement about
every interleaving.

* `Reaches.preserves` is the invariant rule;
* `run_along` is the invariant rule for runs whose steps all meet a condition, and
  `passes_iff_along` says when the condition is exact;
* `Reachable.map` carries runs of one machine to runs of a part of it, and
  `Simulates.run` to the runs of another machine that they make.
-/

namespace HttpsServer

/-- A machine: its initial state, and what an action does where it is
enabled. -/
structure Machine (σ α : Type*) where
  init : σ
  step : σ → α → Option σ

namespace Machine

variable {σ α τ β : Type*}

/-- The state after a run, if every action of it is enabled in turn. -/
def run (M : Machine σ α) : σ → List α → Option σ
  | s, [] => some s
  | s, a :: as => (M.step s a).bind fun s' => M.run s' as

/-- Some run leads from `s` to `t`. -/
def Reaches (M : Machine σ α) (s t : σ) : Prop := ∃ as, M.run s as = some t

/-- Some run leads to `s` from the initial state. -/
def Reachable (M : Machine σ α) (s : σ) : Prop := M.Reaches M.init s

/-- Every step of the run is taken in a state and by an action that meet
`P`. -/
def Along (M : Machine σ α) (P : σ → α → Prop) : σ → List α → Prop
  | _, [] => True
  | s, a :: as => P s a ∧ ∀ s', M.step s a = some s' → M.Along P s' as

/-- The state is one the run passes through. -/
def Passes (M : Machine σ α) (s : σ) (as : List α) (t : σ) : Prop :=
  ∃ before after, as = before ++ after ∧ M.run s before = some t

variable {M : Machine σ α}

@[simp] theorem run_nil (s : σ) : M.run s [] = some s := rfl

theorem run_cons_eq_some {s t : σ} {a : α} {as : List α} :
    M.run s (a :: as) = some t ↔ ∃ s', M.step s a = some s' ∧ M.run s' as = some t := by
  simp [run, Option.bind_eq_some_iff]

theorem run_append_eq_some {s u : σ} {as bs : List α} :
    M.run s (as ++ bs) = some u ↔ ∃ t, M.run s as = some t ∧ M.run t bs = some u := by
  induction as generalizing s with
  | nil => simp
  | cons a as ih =>
      simp only [List.cons_append, run_cons_eq_some, ih]
      constructor
      · rintro ⟨s', hs', t, ht, hu⟩
        exact ⟨t, ⟨s', hs', ht⟩, hu⟩
      · rintro ⟨t, ⟨s', hs', ht⟩, hu⟩
        exact ⟨s', hs', t, ht, hu⟩

/-! ## Reachability -/

theorem Reaches.refl (s : σ) : M.Reaches s s := ⟨[], rfl⟩

theorem Reaches.trans {s t u : σ} (h : M.Reaches s t) (h' : M.Reaches t u) : M.Reaches s u := by
  obtain ⟨as, has⟩ := h
  obtain ⟨bs, hbs⟩ := h'
  exact ⟨as ++ bs, run_append_eq_some.2 ⟨t, has, hbs⟩⟩

theorem Reaches.of_step {s t : σ} {a : α} (h : M.step s a = some t) : M.Reaches s t :=
  ⟨[a], run_cons_eq_some.2 ⟨t, h, rfl⟩⟩

theorem Reachable.init : M.Reachable M.init := .refl _

theorem Reachable.reaches {s t : σ} (h : M.Reachable s) (h' : M.Reaches s t) : M.Reachable t :=
  Reaches.trans h h'

theorem Reachable.step {s t : σ} {a : α} (h : M.Reachable s) (h' : M.step s a = some t) :
    M.Reachable t :=
  h.reaches (.of_step h')

/-- **Invariant rule**: what every step preserves, every run preserves. -/
theorem Reaches.preserves {I : σ → Prop}
    (hstep : ∀ s a t, I s → M.step s a = some t → I t) {s t : σ} (h : M.Reaches s t) (hs : I s) :
    I t := by
  obtain ⟨as, has⟩ := h
  induction as generalizing s with
  | nil =>
      cases has
      exact hs
  | cons a as ih =>
      obtain ⟨s', hs', hrun⟩ := run_cons_eq_some.1 has
      exact ih (hstep s a s' hs hs') hrun

/-- What holds initially and is preserved by every step holds in every
reachable state. -/
theorem Reachable.invariant {I : σ → Prop} (hinit : I M.init)
    (hstep : ∀ s a t, I s → M.step s a = some t → I t) {s : σ} (h : M.Reachable s) : I s :=
  Reaches.preserves hstep h hinit

/-- If every step of `M` is some run of `N` on the part `f` of the state, then
that part is reachable in `N`. -/
theorem Reachable.map {N : Machine τ β} (f : σ → τ) (hinit : N.Reachable (f M.init))
    (hstep : ∀ s a t, M.step s a = some t → N.Reaches (f s) (f t)) {s : σ} (h : M.Reachable s) :
    N.Reachable (f s) :=
  h.invariant (I := fun s => N.Reachable (f s)) hinit fun s a t hs hst => hs.reaches (hstep s a t hst)

/-! ## Conditions along a run -/

instance decidableAlong (M : Machine σ α) (P : σ → α → Prop) [∀ s a, Decidable (P s a)] :
    ∀ (s : σ) (as : List α), Decidable (M.Along P s as)
  | _, [] => isTrue trivial
  | s, a :: as =>
      match h : M.step s a with
      | none => decidable_of_iff (P s a) ⟨fun hP => ⟨hP, by simp [h]⟩, And.left⟩
      | some s' =>
          have := decidableAlong M P s' as
          decidable_of_iff (P s a ∧ M.Along P s' as) (by simp [Along, h])

theorem Along.of_append {P : σ → α → Prop} {s : σ} {as bs : List α} (h : M.Along P s (as ++ bs)) :
    M.Along P s as := by
  induction as generalizing s with
  | nil => trivial
  | cons a as ih => exact ⟨h.1, fun s' hs' => ih (h.2 s' hs')⟩

/-- A condition on the actions alone. -/
theorem Along.of_forall {P : α → Prop} {as : List α} (h : ∀ a ∈ as, P a) (s : σ) :
    M.Along (fun _ a => P a) s as := by
  induction as generalizing s with
  | nil => trivial
  | cons a as ih => exact ⟨h a (by simp), fun s' _ => ih (fun b hb => h b (by simp [hb])) s'⟩

/-- **Counting rule**: where every counted step uses up `w` of what is left (`l`),
and what comes in (`r`) adds to it, a run takes no more counted steps than
that. -/
theorem run_countP_le {P : α → Prop} {p : α → Bool} {w : Nat} {l r : σ → Nat}
    (hstep : ∀ s a t, P a → M.step s a = some t →
      (if p a then w else 0) + l t + r s ≤ l s + r t)
    {s t : σ} {as : List α} (h : M.run s as = some t) (hP : ∀ a ∈ as, P a) :
    w * as.countP p + l t + r s ≤ l s + r t := by
  induction as generalizing s with
  | nil =>
      cases h
      simp
  | cons a as ih =>
      obtain ⟨s', hs', hrun⟩ := run_cons_eq_some.1 h
      have hfirst := hstep s a s' (hP a (by simp)) hs'
      have hrest := ih hrun fun b hb => hP b (by simp [hb])
      rw [List.countP_cons, Nat.mul_add]
      cases hp : p a <;> simp only [hp, if_true, if_false, Bool.false_eq_true] at hfirst ⊢ <;>
        omega

/-- **Invariant rule under a condition**: what every step that meets `P`
preserves, a run of such steps preserves. -/
theorem run_along {I : σ → Prop} {P : σ → α → Prop}
    (hstep : ∀ s a t, I s → P s a → M.step s a = some t → I t) {s t : σ} {as : List α}
    (h : M.run s as = some t) (hP : M.Along P s as) (hs : I s) : I t := by
  induction as generalizing s with
  | nil =>
      cases h
      exact hs
  | cons a as ih =>
      obtain ⟨s', hs', hrun⟩ := run_cons_eq_some.1 h
      exact ih hrun (hP.2 s' hs') (hstep s a s' hs hP.1 hs')

/-- The same for every state on the way. -/
theorem Passes.along {I : σ → Prop} {P : σ → α → Prop}
    (hstep : ∀ s a t, I s → P s a → M.step s a = some t → I t) {s t : σ} {as : List α}
    (h : M.Passes s as t) (hP : M.Along P s as) (hs : I s) : I t := by
  obtain ⟨before, after, rfl, hrun⟩ := h
  exact run_along hstep hrun hP.of_append hs

theorem Passes.refl (s : σ) (as : List α) : M.Passes s as s := ⟨[], as, rfl, rfl⟩

theorem Passes.of_run {s t : σ} {as : List α} (h : M.run s as = some t) : M.Passes s as t :=
  ⟨as, [], (List.append_nil as).symm, h⟩

theorem Passes.reachable {as : List α} {t : σ} (h : M.Passes M.init as t) : M.Reachable t := by
  obtain ⟨before, after, -, hrun⟩ := h
  exact ⟨before, hrun⟩

theorem Passes.reaches {s t u : σ} {as : List α} (h : M.Passes s as t)
    (hrun : M.run s as = some u) : M.Reaches t u := by
  obtain ⟨before, after, rfl, hbefore⟩ := h
  obtain ⟨t', ht', hafter⟩ := run_append_eq_some.1 hrun
  obtain rfl : t = t' := Option.some.inj (hbefore.symm.trans ht')
  exact ⟨after, hafter⟩

theorem Passes.cons {s s' t : σ} {a : α} {as : List α} (h : M.step s a = some s')
    (h' : M.Passes s' as t) : M.Passes s (a :: as) t := by
  obtain ⟨before, after, rfl, hrun⟩ := h'
  exact ⟨a :: before, after, rfl, run_cons_eq_some.2 ⟨s', h, hrun⟩⟩

/-- A run meets `P` throughout if it only passes through states with `Q`, and
a step outside `P` leads from such a state to one without `Q`. -/
theorem along_of_passes {I Q : σ → Prop} {P : σ → α → Prop}
    (hstep : ∀ s a t, I s → M.step s a = some t → I t)
    (hviolates : ∀ s a t, I s → Q s → M.step s a = some t → ¬ P s a → ¬ Q t) {s t : σ}
    {as : List α} (h : M.run s as = some t) (hs : I s) (hQ : ∀ u, M.Passes s as u → Q u) :
    M.Along P s as := by
  induction as generalizing s with
  | nil => trivial
  | cons a as ih =>
      obtain ⟨s', hs', hrun⟩ := run_cons_eq_some.1 h
      refine ⟨?_, fun u hu => ?_⟩
      · by_contra hP
        exact hviolates s a s' hs (hQ s (.refl s _)) hs' hP (hQ s' (.cons hs' (.refl s' as)))
      · obtain rfl : s' = u := Option.some.inj (hs'.symm.trans hu)
        exact ih hrun (hstep s a s' hs hs') fun v hv => hQ v (.cons hs' hv)

/-- **Conditions and invariants**: a run passes only through states with `Q`
exactly when it meets `P` throughout, if steps that meet `P` keep some `J` that
implies `Q`, and one that does not leads to a state without `Q`. -/
theorem passes_iff_along {I J Q : σ → Prop} {P : σ → α → Prop}
    (hstep : ∀ s a t, I s → M.step s a = some t → I t)
    (hkeep : ∀ s a t, J s → P s a → M.step s a = some t → J t) (himp : ∀ s, J s → Q s)
    (hviolates : ∀ s a t, I s → Q s → M.step s a = some t → ¬ P s a → ¬ Q t) {s t : σ}
    {as : List α} (h : M.run s as = some t) (hI : I s) (hJ : J s) :
    (∀ u, M.Passes s as u → Q u) ↔ M.Along P s as := by
  constructor
  · exact along_of_passes hstep hviolates h hI
  · exact fun hP u hu => himp u (hu.along hkeep hP hJ)

/-- A run meets `P` throughout exactly when it ends within `I`, if steps that
meet `P` keep `I`, and one that does not leaves it for good. -/
theorem along_iff_of_breaks {I B : σ → Prop} {P : σ → α → Prop}
    (hkeep : ∀ s a t, I s → P s a → M.step s a = some t → I t)
    (hbreak : ∀ s a t, I s → ¬ P s a → M.step s a = some t → B t)
    (hstay : ∀ s a t, B s → M.step s a = some t → B t) (hdisjoint : ∀ s, I s → ¬ B s)
    {s t : σ} {as : List α} (h : M.run s as = some t) (hs : I s) : M.Along P s as ↔ I t := by
  refine ⟨fun hP => run_along hkeep h hP hs, fun ht => ?_⟩
  induction as generalizing s with
  | nil => trivial
  | cons a as ih =>
      obtain ⟨s', hs', hrun⟩ := run_cons_eq_some.1 h
      have hP : P s a := by
        by_contra hnot
        exact hdisjoint t ht (Reaches.preserves hstay ⟨as, hrun⟩ (hbreak s a s' hs hnot hs'))
      refine ⟨hP, fun u hu => ?_⟩
      obtain rfl : s' = u := Option.some.inj (hs'.symm.trans hu)
      exact ih hrun (hkeep s a s' hs hP hs')

/-- A run that meets `P` throughout meets what `P` and an invariant imply of
each step. -/
theorem Along.imp {I : σ → Prop} {P Q : σ → α → Prop}
    (hstep : ∀ s a t, I s → P s a → M.step s a = some t → I t)
    (himp : ∀ s a t, I s → P s a → M.step s a = some t → Q s a) {s t : σ} {as : List α}
    (h : M.run s as = some t) (hP : M.Along P s as) (hs : I s) : M.Along Q s as := by
  induction as generalizing s with
  | nil => trivial
  | cons a as ih =>
      obtain ⟨s', hs', hrun⟩ := run_cons_eq_some.1 h
      refine ⟨himp s a s' hs hP.1 hs', fun u hu => ?_⟩
      obtain rfl : s' = u := Option.some.inj (hs'.symm.trans hu)
      exact ih hrun (hP.2 s' hs') (hstep s a s' hs hP.1 hs')

/-! ## Simulation -/

/-- What the steps of a run emit, one after the other. -/
def emitted (M : Machine σ α) (emits : σ → α → List β) : σ → List α → List β
  | _, [] => []
  | s, a :: as =>
      emits s a ++
        match M.step s a with
        | some s' => M.emitted emits s' as
        | none => []

/-- What a step of `M` emits is a run of `N`, and leads to a state of `N` that
belongs to the next one of `M`. -/
def Simulates (N : Machine τ β) (M : Machine σ α) (emits : σ → α → List β) (R : σ → τ → Prop) :
    Prop :=
  ∀ s t a s', R s t → M.step s a = some s' → ∃ t', N.run t (emits s a) = some t' ∧ R s' t'

/-- **Simulation rule**: what a run of `M` emits is a run of `N`. -/
theorem Simulates.run {N : Machine τ β} {emits : σ → α → List β} {R : σ → τ → Prop}
    (h : N.Simulates M emits R) {s s' : σ} {t : τ} {as : List α} (hrun : M.run s as = some s')
    (hR : R s t) : ∃ t', N.run t (M.emitted emits s as) = some t' ∧ R s' t' := by
  induction as generalizing s t with
  | nil =>
      cases hrun
      exact ⟨t, rfl, hR⟩
  | cons a as ih =>
      obtain ⟨u, hu, hrest⟩ := run_cons_eq_some.1 hrun
      obtain ⟨v, hv, huv⟩ := h s t a u hR hu
      obtain ⟨t', ht', hend⟩ := ih hrest huv
      refine ⟨t', ?_, hend⟩
      rw [emitted, hu]
      exact run_append_eq_some.2 ⟨v, hv, ht'⟩

end Machine

end HttpsServer
