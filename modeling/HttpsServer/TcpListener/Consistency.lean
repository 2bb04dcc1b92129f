import HttpsServer.Machine
import HttpsServer.TcpListener

/-!
# HttpsServer.TcpListener.Consistency

What `running()` says about the listening socket, over all sequences of calls.

`open` replaces the socket before it makes the calls that may fail, and never
clears `running_`; `start` looks only at whether there is a socket.  So a
failed `open` on a running listener leaves it running on a socket that does not
listen, and a `start` after a failed `open` takes its half-made socket for a
finished one.  Every other call keeps flag and socket in step
(`consistent_iff`).
-/

namespace HttpsServer.TcpListener

/-- The calls on a listener. -/
inductive Call where
  /-- `open`, with the system call that fails if any -/
  | «open» (fault : Option OpenFault)
  /-- `start`, with the system call that fails if it opens the listener -/
  | start (fault : Option OpenFault)
  /-- `accept` returns a connection or throws -/
  | accept (accepted : Bool)
  | stop
  deriving DecidableEq, Repr

/-- A listener on which one call is made after the other. -/
def machine : Machine TcpListener Call where
  init := .initial
  step l
    | .open fault => some (l.open fault)
    | .start fault => some (l.start fault)
    | .accept accepted => if accepted && !l.canAccept then none else some l
    | .stop => some l.stop

/-- A listener that says it is running has a socket that listens. -/
def Consistent (l : TcpListener) : Prop := l.running = true → l.socket = .listening

/-- A call that throws out of `open` leaves the listener not running, and a
`start` that does not leaves it running on a socket that listens. -/
def MeetsContract (l : TcpListener) : Call → Prop
  | .open (some fault) => (l.open (some fault)).running = false
  | .start fault =>
      if l.startThrows fault then (l.start fault).running = false
      else (l.start fault).running = true ∧ (l.start fault).socket = .listening
  | _ => True

/-- `open` fails only on a listener that is not running, and `start` is not
called on a socket that a failed `open` has left behind. -/
def Careful (l : TcpListener) : Call → Prop
  | .open (some _) => l.running = false
  | .start _ => l.socket = .invalid ∨ l.socket = .listening
  | _ => True

instance (l : TcpListener) (c : Call) : Decidable (l.Careful c) := by
  unfold Careful; split <;> infer_instance

/-! ## One call -/

/-- What `open` leaves running after a failure was running before. -/
theorem running_open_fault (l : TcpListener) (fault : OpenFault) :
    (l.open (some fault)).running = l.running := by
  cases fault <;> rfl

theorem start_of_valid {l : TcpListener} (h : l.socket ≠ .invalid) (fault : Option OpenFault) :
    l.start fault = { l with running := true } ∧ l.startThrows fault = false := by
  simp [start, startThrows, h]

theorem start_of_invalid {l : TcpListener} (h : l.socket = .invalid) (fault : Option OpenFault) :
    l.start fault = l.open fault ∧ l.startThrows fault = fault.isSome := by
  cases fault <;> simp [start, startThrows, h, «open»]

/-- A careful call keeps flag and socket in step. -/
theorem Consistent.call {l m : TcpListener} {c : Call} (h : l.Consistent) (hc : l.Careful c)
    (hm : machine.step l c = some m) : m.Consistent := by
  cases c with
  | «open» fault =>
      cases hm
      cases fault with
      | none => exact fun _ => rfl
      | some fault =>
          intro hrun
          rw [running_open_fault, show l.running = false from hc] at hrun
          contradiction
  | start fault =>
      cases hm
      intro hrun
      by_cases hvalid : l.socket = .invalid
      · rw [(start_of_invalid hvalid fault).1] at hrun ⊢
        cases fault with
        | none => rfl
        | some fault =>
            -- the listener had no socket, so it was not running
            rw [running_open_fault] at hrun
            rw [h hrun] at hvalid
            contradiction
      · rw [(start_of_valid hvalid fault).1]
        exact hc.resolve_left hvalid
  | accept accepted =>
      obtain ⟨-, hm⟩ := Option.ite_none_left_eq_some.1 hm
      cases hm
      exact h
  | stop =>
      cases hm
      nofun

theorem Consistent.meetsContract {l : TcpListener} {c : Call} (h : l.Consistent)
    (hc : l.Careful c) : l.MeetsContract c := by
  cases c with
  | «open» fault =>
      cases fault with
      | none => trivial
      | some fault => exact (running_open_fault l fault).trans hc
  | start fault =>
      by_cases hvalid : l.socket = .invalid
      · obtain ⟨hstart, hthrows⟩ := start_of_invalid hvalid fault
        simp only [MeetsContract, hstart, hthrows]
        cases fault with
        | none => exact ⟨rfl, rfl⟩
        | some fault =>
            refine (running_open_fault l fault).trans (Bool.eq_false_iff.2 fun hrun => ?_)
            rw [h hrun] at hvalid
            contradiction
      · obtain ⟨hstart, hthrows⟩ := start_of_valid hvalid fault
        simp only [MeetsContract, hstart, hthrows]
        exact ⟨trivial, hc.resolve_left hvalid⟩
  | accept _ => trivial
  | stop => trivial

/-- A call that meets its contract is a careful one. -/
theorem MeetsContract.careful {l : TcpListener} {c : Call} (h : l.MeetsContract c) :
    l.Careful c := by
  cases c with
  | «open» fault =>
      cases fault with
      | none => trivial
      | some fault => exact (running_open_fault l fault).symm.trans h
  | start fault =>
      by_cases hvalid : l.socket = .invalid
      · exact .inl hvalid
      · obtain ⟨hstart, hthrows⟩ := start_of_valid hvalid fault
        simp only [MeetsContract, hstart, hthrows] at h
        exact .inr h.2
  | accept _ => trivial
  | stop => trivial

/-! ## Sequences of calls -/

/-- **Flag and socket agree**, and every call does what it is for, exactly in
the sequences of careful calls. -/
theorem consistent_iff {calls : List Call} {l : TcpListener}
    (h : machine.run .initial calls = some l) :
    ((∀ m, machine.Passes .initial calls m → m.Consistent) ∧
        machine.Along MeetsContract .initial calls) ↔
      machine.Along Careful .initial calls := by
  constructor
  · rintro ⟨-, hmeets⟩
    exact hmeets.imp (I := fun _ => True) (fun _ _ _ _ _ _ => trivial)
      (fun _ _ _ _ hcall _ => hcall.careful) h trivial
  · intro hcareful
    have hstep : ∀ s c t, Consistent s → s.Careful c → machine.step s c = some t → Consistent t :=
      fun s c t hs hc ht => hs.call hc ht
    have hinit : Consistent .initial := nofun
    exact ⟨fun m hm => hm.along hstep hcareful hinit,
      hcareful.imp hstep (fun _ _ _ hs hc _ => hs.meetsContract hc) h hinit⟩

/-- A failed `open` is made good by `stop` and `start`. -/
theorem consistent_iff_restarted :
    ∃ l, machine.run .initial [.open none, .accept true, .stop, .open (some .bind), .stop,
        .start none] = some l ∧ l.running = true ∧ l.socket = .listening := by
  have hrun : machine.run .initial [.open none, .accept true, .stop, .open (some .bind), .stop,
      .start none] = some _ := rfl
  have hconsistent := ((consistent_iff hrun).2 (by decide)).1
  exact ⟨_, hrun, rfl, hconsistent _ (.of_run hrun) rfl⟩

/-- `start` after an `open` that could not bind. -/
theorem not_consistent_start :
    ¬ ∀ (calls : List Call) (l : TcpListener), machine.run .initial calls = some l →
      (∀ m, machine.Passes .initial calls m → m.Consistent) ∧
        machine.Along MeetsContract .initial calls := by
  intro h
  have hrun : machine.run .initial [.open (some .bind), .start none] = some _ := rfl
  have hsocket := (h _ _ hrun).1 _ (.of_run hrun) rfl
  contradiction

end HttpsServer.TcpListener
