import HttpsServer.ThreadPool.Fifo

/-!
# HttpsServer.ThreadPool.Drain

Shutdown drains the queue.

`accepting_` and `stopping_` change together under `mutex_`, so a worker that
finds the queue empty in a stopping pool can leave: nothing is enqueued behind
its back.  `Drain` is the invariant behind this.  It also follows each client
through its loop over `workers_`: the workers it has passed have exited, and
once it has passed them all, every accepted task has been run.
-/

namespace HttpsServer.ThreadPool

variable {φ : Type}

/-- Worker `w` has returned from `worker_loop`. -/
def State.Exited (s : State φ) (w : Nat) : Prop := s.workers[w]? = some .exited

/-- How many of `n` workers a client's loop has passed. -/
def Client.passed (n : Nat) : Client → Nat
  | joining i => i
  | blocked i => i
  | joined => n
  | _ => 0

/-- The flags, the queue and the workers that are gone. -/
structure Drain (n : Nat) (s : State φ) : Prop where
  workers_length : s.workers.length = n
  joinable_length : s.joinable.length = n
  flags : s.stopping = !s.accepting
  exited : ∀ w, s.Exited w → s.stopping = true ∧ s.tasks = []
  joinable : ∀ w, s.joinable[w]? = some false → s.Exited w
  passed : ∀ (c : Nat) (client : Client), s.clients[c]? = some client →
    ∀ w < client.passed n, w < n → s.Exited w

theorem Drain.initial (n k : Nat) : Drain n (State.initial n k : State φ) where
  workers_length := List.length_replicate ..
  joinable_length := List.length_replicate ..
  flags := rfl
  exited := by
    intro w hw
    have := List.mem_of_getElem? hw
    simp [State.initial] at this
  joinable := by
    intro w hw
    have := List.mem_of_getElem? hw
    simp [State.initial] at this
  passed := by
    intro c client hc w hw
    obtain ⟨-, rfl⟩ := List.mem_replicate.1 (List.mem_of_getElem? hc)
    exact absurd hw (Nat.not_lt_zero w)

/-! ## Nobody comes back -/

/-- A worker that has left stays away. -/
theorem Step.exited_mono {s t : State φ} {a : Action φ} (h : Step s a t) {w : Nat}
    (hw : s.Exited w) : t.Exited w := by
  cases h with
  | notifiedOne _ hw' => exact getElem?_set_slot_of_ne hw' hw (by simp)
  | notifiedAll _ =>
      rw [State.Exited, State.notifyAll, List.getElem?_map, hw]
      rfl
  | woken hw' => exact getElem?_set_slot_of_ne hw' hw (by simp)
  | slept hw' _ _ => exact getElem?_set_slot_of_ne hw' hw (by simp)
  | exited hw' _ _ => exact getElem?_set_slot_of_ne hw' hw (by simp)
  | took hw' _ => exact getElem?_set_slot_of_ne hw' hw (by simp)
  | finished hw' => exact getElem?_set_slot_of_ne hw' hw (by simp)
  | _ => exact hw

/-- The pool never accepts again. -/
theorem Step.accepting_mono {s t : State φ} {a : Action φ} (h : Step s a t)
    (hs : s.accepting = false) : t.accepting = false := by
  cases h with
  | closed _ => rfl
  | _ => exact hs

/-- A pool that does not accept has the tasks it had. -/
theorem Step.accepted_eq {s t : State φ} {a : Action φ} (h : Step s a t)
    (hs : s.accepting = false) : t.accepted = s.accepted := by
  cases h with
  | accepted _ hacc => simp [hs] at hacc
  | _ => rfl

/-- A worker leaves only a stopping pool whose queue is empty. -/
theorem Step.exits {s t : State φ} {a : Action φ} (h : Step s a t) {w : Nat}
    (hs : ¬ s.Exited w) (ht : t.Exited w) : s.stopping = true ∧ s.tasks = [] := by
  cases h with
  | exited _ hstop htasks => exact ⟨hstop, htasks⟩
  | notifiedAll _ =>
      exfalso
      simp only [State.Exited, State.notifyAll, List.getElem?_map, Option.map_eq_some_iff] at hs ht
      obtain ⟨worker, hworker, hwoken⟩ := ht
      cases worker with
      | exited => exact hs hworker
      | asleep => cases hwoken
      | ready => cases hwoken
      | running task => cases hwoken
  | notifiedOne _ _ => exact absurd ((getElem?_set_slot ht).resolve_left (by simp)) hs
  | woken _ => exact absurd ((getElem?_set_slot ht).resolve_left (by simp)) hs
  | slept _ _ _ => exact absurd ((getElem?_set_slot ht).resolve_left (by simp)) hs
  | took _ _ => exact absurd ((getElem?_set_slot ht).resolve_left (by simp)) hs
  | finished _ => exact absurd ((getElem?_set_slot ht).resolve_left (by simp)) hs
  | _ => exact absurd ht hs

/-- The queue of a stopping pool is not filled again. -/
theorem Step.drained {s t : State φ} {a : Action φ} (h : Step s a t)
    (hflags : s.stopping = !s.accepting) (hstop : s.stopping = true) (htasks : s.tasks = []) :
    t.stopping = true ∧ t.tasks = [] := by
  cases h with
  | accepted _ hacc => simp [hacc, hstop] at hflags
  | took _ hcons => simp [hcons] at htasks
  | closed _ => exact ⟨rfl, htasks⟩
  | _ => exact ⟨hstop, htasks⟩

/-! ## The invariant -/

theorem Step.workers_length {s t : State φ} {a : Action φ} (h : Step s a t) :
    t.workers.length = s.workers.length := by
  cases h <;> simp [State.shutdown, State.notifyAll, State.finish]

theorem Step.joinable_length {s t : State φ} {a : Action φ} (h : Step s a t) :
    t.joinable.length = s.joinable.length := by
  cases h <;> simp [State.shutdown, State.notifyAll, State.finish]

/-- `shutdown` sets both flags; no other step sets either. -/
theorem Step.flags {s t : State φ} {a : Action φ} (h : Step s a t)
    (hs : s.stopping = !s.accepting) : t.stopping = !t.accepting := by
  cases h with
  | closed _ => rfl
  | _ => exact hs

/-- Only the join of a worker that has left makes its thread unjoinable. -/
theorem Step.unjoinable {s t : State φ} {a : Action φ} (h : Step s a t) {w : Nat}
    (hw : t.joinable[w]? = some false) : s.joinable[w]? = some false ∨ s.Exited w := by
  cases h with
  | @joinReturned c i _ hexit =>
      by_cases hwi : i = w
      · subst hwi
        exact .inr hexit
      · rw [List.getElem?_set_ne hwi] at hw
        exact .inl hw
  | _ => exact .inl hw

/-- A client moves to a position behind workers that are gone. -/
theorem Drain.passed_set {n : Nat} {s : State φ} (h : Drain n s) {c c' : Nat}
    {client client' : Client} (hc : (s.clients.set c' client')[c]? = some client)
    (hnew : ∀ w < client'.passed n, w < n → s.Exited w) :
    ∀ w < client.passed n, w < n → s.Exited w := by
  cases getElem?_set_slot hc with
  | inl heq =>
      rw [heq]
      exact hnew
  | inr hbefore => exact h.passed c client hbefore

/-- The workers passed by a client after a step were gone before it. -/
theorem Drain.passed_step {n : Nat} {s t : State φ} {a : Action φ} (h : Drain n s)
    (hst : Step s a t) {c : Nat} {client : Client} (hc : t.clients[c]? = some client) :
    ∀ w < client.passed n, w < n → s.Exited w := by
  -- a client that has passed nobody in its new position
  have hnone : ∀ w < 0, w < n → s.Exited w := fun w hw => absurd hw (Nat.not_lt_zero w)
  -- a client that passes one more worker
  have hnext : ∀ i, (∀ w < i, w < n → s.Exited w) → s.Exited i →
      ∀ w < i + 1, w < n → s.Exited w := by
    intro i hbelow hi w hw hwn
    cases Nat.lt_succ_iff_lt_or_eq.1 hw with
    | inl hlt => exact hbelow w hlt hwn
    | inr heq =>
        rw [heq]
        exact hi
  cases hst with
  | rejected _ _ => exact h.passed c client hc
  | accepted _ _ => exact h.passed_set hc hnone
  | notifiedOne _ _ => exact h.passed_set hc hnone
  | notifiedNobody _ _ => exact h.passed_set hc hnone
  | closed _ => exact h.passed_set hc hnone
  | @notifiedAll _ call _ =>
      refine h.passed_set hc ?_
      cases call <;> exact hnone
  | left _ => exact h.passed_set hc hnone
  | @loopEnded c' i hjoin hlen =>
      refine h.passed_set hc fun w _ hwn => ?_
      rw [h.joinable_length] at hlen
      exact h.passed c' (.joining i) hjoin w (Nat.lt_of_lt_of_le hwn hlen) hwn
  | @skipped c' i hjoin hflag =>
      exact h.passed_set hc (hnext i (h.passed c' (.joining i) hjoin) (h.joinable i hflag))
  | @joinCalled c' i hjoin _ => exact h.passed_set hc (h.passed c' (.joining i) hjoin)
  | @joinReturned c' i hblocked hexit =>
      exact h.passed_set hc (hnext i (h.passed c' (.blocked i) hblocked) hexit)
  | _ => exact h.passed c client hc

/-- A step keeps `Drain`. -/
theorem Drain.step {n : Nat} {s t : State φ} {a : Action φ} (h : Drain n s) (hst : Step s a t) :
    Drain n t where
  workers_length := hst.workers_length.trans h.workers_length
  joinable_length := hst.joinable_length.trans h.joinable_length
  flags := hst.flags h.flags
  exited := by
    intro w hw
    have hs : s.stopping = true ∧ s.tasks = [] := by
      by_cases hbefore : s.Exited w
      · exact h.exited w hbefore
      · exact hst.exits hbefore hw
    exact hst.drained h.flags hs.1 hs.2
  joinable := by
    intro w hw
    cases hst.unjoinable hw with
    | inl hbefore => exact hst.exited_mono (h.joinable w hbefore)
    | inr hexit => exact hst.exited_mono hexit
  passed := fun _ _ hc w hw hwn => hst.exited_mono (h.passed_step hst hc w hw hwn)

/-- Every reachable state has `Drain`. -/
theorem Drain.of_reachable {n k : Nat} {s : State φ} (h : (machine φ n k).Reachable s) :
    Drain n s :=
  invariant_of_step (.initial n k) (fun _ _ _ => Drain.step) h

/-! ## Whole runs -/

section Runs

variable {n k : Nat} {s t : State φ}

theorem exited_of_reaches (h : (machine φ n k).Reaches s t) {w : Nat} (hw : s.Exited w) :
    t.Exited w :=
  h.preserves (I := fun s => s.Exited w) (fun _ _ _ hs hst => (Step.of_step hst).exited_mono hs) hw

/-- A closed pool stays closed, with the tasks it had accepted. -/
theorem closed_of_reaches (h : (machine φ n k).Reaches s t) (hs : s.accepting = false) :
    t.accepting = false ∧ t.accepted = s.accepted := by
  refine h.preserves (I := fun u => u.accepting = false ∧ u.accepted = s.accepted) ?_ ⟨hs, rfl⟩
  intro u a v hu huv
  have hst := Step.of_step huv
  exact ⟨hst.accepting_mono hu.1, (hst.accepted_eq hu.1).trans hu.2⟩

/-- A closed pool turns a `submit` away and stays as it is. -/
theorem submit_of_not_accepting {c : Nat} {f : φ} (hs : s.accepting = false)
    (h : s.step (.submit c f) = some t) : t = s := by
  cases Step.of_step h with
  | accepted _ hacc => simp [hs] at hacc
  | rejected _ _ => rfl

/-- Once all workers have left, every accepted task has been run. -/
theorem finished_of_exited (hn : 0 < n) (h : (machine φ n k).Reachable s)
    (hall : ∀ w < n, s.Exited w) : ∀ task ∈ s.accepted, task ∈ s.finished := by
  have hfifo := Fifo.of_reachable h
  have hdrain := Drain.of_reachable h
  have hheld : s.held = [] := by
    rw [List.eq_nil_iff_forall_not_mem]
    intro task htask
    obtain ⟨w, hw⟩ := State.mem_held_iff.1 htask
    have hwn : w < n := hdrain.workers_length ▸ (List.getElem?_eq_some_iff.1 hw).1
    have := hw.symm.trans (hall w hwn)
    simp at this
  intro task htask
  rw [hfifo.order, (hdrain.exited 0 (hall 0 hn)).2, List.append_nil] at htask
  simpa [hheld] using hfifo.owned.mem_iff.2 htask

end Runs

/-- **Shutdown drains the pool**, for any number of workers and clients and
under every interleaving:
a `submit` that comes after the critical section of `shutdown` is turned away
and changes nothing; a worker leaves only when the pool is stopping and its
queue is empty, which it then is for ever; and when the joins of `wait` or of
the destructor have returned, every task ever accepted has been run to its
end. -/
theorem shutdown_drains {n k : Nat} (hn : 0 < n) {s : State φ}
    (h : (machine φ n k).Reachable s) :
    (∀ c call s₁ s₂ c' f s₃, s.step (.shutdown c call) = some s₁ →
      (machine φ n k).Reaches s₁ s₂ → s₂.step (.submit c' f) = some s₃ → s₃ = s₂) ∧
    (∀ a t w, s.step a = some t → ¬ s.Exited w → t.Exited w →
      s.stopping = true ∧ s.tasks = []) ∧
    (∀ w t, s.Exited w → (machine φ n k).Reaches s t → t.tasks = []) ∧
    (∀ (c : Nat) t, s.clients[c]? = some Client.joined → (machine φ n k).Reaches s t →
      ∀ task ∈ t.accepted, task ∈ t.finished) := by
  refine ⟨?_, ?_, ?_, ?_⟩
  · intro c call s₁ s₂ c' f s₃ hclose hreach hsubmit
    have hclosed : s₁.accepting = false := by
      cases Step.of_step hclose with
      | closed _ => rfl
    exact submit_of_not_accepting (closed_of_reaches hreach hclosed).1 hsubmit
  · intro a t w hst hs ht
    exact (Step.of_step hst).exits hs ht
  · intro w t hw hreach
    exact ((Drain.of_reachable (h.reaches hreach)).exited w (exited_of_reaches hreach hw)).2
  · intro c t hjoined hreach
    have hall : ∀ w < n, s.Exited w := fun w hw =>
      (Drain.of_reachable h).passed c .joined hjoined w hw hw
    exact finished_of_exited hn (h.reaches hreach) fun w hw =>
      exited_of_reaches hreach (hall w hw)

/-- `wait` on one worker with one queued task. -/
theorem shutdown_drains_wait :
    ∃ s, (machine Nat 1 1).run (.initial 1 1)
        [.submit 0 7, .notifyOne 0 none, .shutdown 0 .wait, .notifyAll 0, .lock 0,
          .finish 0 .returned, .lock 0, .join 0, .join 0, .join 0] = some s ∧
      s.tasks = [] ∧ ∀ task ∈ s.accepted, task ∈ s.finished := by
  obtain ⟨-, -, hempty, hfinished⟩ := shutdown_drains (n := 1) (k := 1) (φ := Nat) (by decide)
    ⟨[.submit 0 7, .notifyOne 0 none, .shutdown 0 .wait, .notifyAll 0, .lock 0,
      .finish 0 .returned, .lock 0, .join 0, .join 0, .join 0], rfl⟩
  exact ⟨_, rfl, hempty 0 _ rfl (.refl _), hfinished 0 _ rfl (.refl _)⟩

end HttpsServer.ThreadPool
