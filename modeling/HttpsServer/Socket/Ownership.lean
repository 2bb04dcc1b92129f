import HttpsServer.Slots
import HttpsServer.Socket

/-!
# HttpsServer.Socket.Ownership

Descriptor ownership is exclusive.

The purpose of a `Socket` is said about one descriptor at a time, without
sockets: `life` is what the system may see of it.  A list of distinct
descriptors and a log agree (`Owned`) when every descriptor of the list is in
the middle of its life and every other one outside it; what a program's sockets
hold together agrees with the program's log after every operation.
-/

namespace HttpsServer.Socket

open scoped List

/-! ## The life of a descriptor -/

/-- What may happen to a descriptor that a program has (`true`) or does not
have: it is acquired by a program that does not have it, used by one that has
it, and closed or handed out once. -/
def life (fd : Int) : Machine Bool Event where
  init := false
  step has e :=
    if e.descriptor ≠ fd then some has
    else
      match e, has with
      | .acquired _, false => some true
      | .used _, true => some true
      | .closed _, true | .released _, true => some false
      | _, _ => none

theorem life_step_of_ne {fd : Int} {e : Event} (h : e.descriptor ≠ fd) (has : Bool) :
    (life fd).step has e = some has := if_pos h

theorem life_step_acquired (fd : Int) : (life fd).step false (.acquired fd) = some true :=
  if_neg (not_not.2 rfl)

theorem life_step_used (fd : Int) : (life fd).step true (.used fd) = some true :=
  if_neg (not_not.2 rfl)

theorem life_step_closed (fd : Int) : (life fd).step true (.closed fd) = some false :=
  if_neg (not_not.2 rfl)

theorem life_step_released (fd : Int) : (life fd).step true (.released fd) = some false :=
  if_neg (not_not.2 rfl)

/-- What one event adds to the closes and hand-outs it adds to the
acquisitions, or it moves the descriptor in or out. -/
theorem life_step_balance {fd : Int} {has has' : Bool} {e : Event}
    (h : (life fd).step has e = some has') :
    [e].count (.closed fd) + [e].count (.released fd) + has'.toNat =
      [e].count (.acquired fd) + has.toNat := by
  by_cases hfd : e.descriptor = fd
  · subst hfd
    cases e <;> cases has <;> simp_all [life, Event.descriptor]
  · rw [life_step_of_ne hfd] at h
    cases h
    cases e <;> simp_all [Event.descriptor]

/-- What a life comes to: every acquisition was ended by one close or one
hand-out, except the last one of a descriptor that the program still has. -/
theorem life_balance {fd : Int} {has has' : Bool} {log : List Event}
    (h : (life fd).run has log = some has') :
    log.count (.closed fd) + log.count (.released fd) + has'.toNat =
      log.count (.acquired fd) + has.toNat := by
  induction log generalizing has with
  | nil =>
      cases h
      simp
  | cons e log ih =>
      obtain ⟨mid, hstep, hrun⟩ := Machine.run_cons_eq_some.1 h
      have hfirst := life_step_balance hstep
      have hrest := ih hrun
      rw [← List.singleton_append, List.count_append, List.count_append, List.count_append]
      omega

/-! ## Descriptors and a log -/

/-- The program has exactly these descriptors, each once, and the log has led
to that. -/
structure Owned (held : List Int) (log : List Event) : Prop where
  nodup : held.Nodup
  lives : ∀ fd, (life fd).run false log = some (decide (fd ∈ held))

namespace Owned

variable {held held' : List Int} {log : List Event} {fd : Int}

theorem empty : Owned [] [] where
  nodup := .nil
  lives := fun _ => rfl

theorem perm (h : Owned held log) (hperm : held ~ held') : Owned held' log where
  nodup := hperm.nodup_iff.1 h.nodup
  lives := fun fd => by
    rw [h.lives fd]
    simp only [hperm.mem_iff]

/-- One more event, which changes what the program has of its own descriptor
only. -/
theorem event (h : Owned held log) {e : Event} (hnodup : held'.Nodup)
    (hother : ∀ fd, fd ≠ e.descriptor → (fd ∈ held' ↔ fd ∈ held))
    (hstep : (life e.descriptor).step (decide (e.descriptor ∈ held)) e =
      some (decide (e.descriptor ∈ held'))) : Owned held' (log ++ [e]) where
  nodup := hnodup
  lives := fun fd => by
    refine Machine.run_append_eq_some.2 ⟨_, h.lives fd, Machine.run_cons_eq_some.2 ⟨_, ?_, rfl⟩⟩
    by_cases hfd : fd = e.descriptor
    · rw [hfd, hstep]
    · rw [life_step_of_ne (Ne.symm hfd)]
      simp only [hother fd hfd]

theorem acquired (h : Owned held log) (hfresh : fd ∉ held) :
    Owned (fd :: held) (log ++ [.acquired fd]) := by
  refine h.event (List.nodup_cons.2 ⟨hfresh, h.nodup⟩) (fun n hn => ?_) ?_
  · exact ⟨fun hmem => (List.mem_cons.1 hmem).resolve_left hn, List.mem_cons_of_mem _⟩
  · simpa [Event.descriptor, hfresh] using life_step_acquired fd

theorem used (h : Owned held log) (hmem : fd ∈ held) : Owned held (log ++ [.used fd]) := by
  refine h.event h.nodup (fun _ _ => .rfl) ?_
  simpa [Event.descriptor, hmem] using life_step_used fd

/-- A descriptor is closed or handed out. -/
theorem givenUp (h : Owned (fd :: held) log) {e : Event} (he : e = .closed fd ∨ e = .released fd) :
    Owned held (log ++ [e]) := by
  obtain ⟨hgone, hnodup⟩ := List.nodup_cons.1 h.nodup
  have hfd : e.descriptor = fd := by rcases he with rfl | rfl <;> rfl
  refine h.event hnodup (fun n hn => ?_) ?_
  · rw [hfd] at hn
    exact ⟨List.mem_cons_of_mem _, fun hmem => (List.mem_cons.1 hmem).resolve_left hn⟩
  · rw [hfd]
    simp only [List.mem_cons, true_or, decide_true, hgone, decide_false]
    rcases he with rfl | rfl
    · exact life_step_closed fd
    · exact life_step_released fd

end Owned

/-! ## Descriptors of a program -/

/-- The descriptor an object holds, if it is alive and valid. -/
def descriptor? (o : Option Socket) : Option Int :=
  o.bind fun s => if s.valid then some s.handle else none

namespace Program

/-- What the sockets hold together. -/
def held (p : Program) : List Int := p.objects.filterMap descriptor?

theorem descriptor?_eq_some {o : Option Socket} {fd : Int} :
    descriptor? o = some fd ↔ o = some { handle := fd } ∧ fd ≠ invalidHandle := by
  cases o with
  | none => simp [descriptor?]
  | some s =>
      obtain ⟨n⟩ := s
      simp only [descriptor?, Option.bind_some, valid, decide_eq_true_eq, Option.ite_none_right_eq_some,
        Option.some.injEq, Socket.mk.injEq]
      constructor
      · rintro ⟨hn, rfl⟩
        exact ⟨rfl, hn⟩
      · rintro ⟨rfl, hn⟩
        exact ⟨hn, rfl⟩

theorem mem_held {p : Program} {fd : Int} (hfd : fd ≠ invalidHandle) :
    fd ∈ p.held ↔ p.owns fd = true := by
  simp [held, owns, List.mem_filterMap, descriptor?_eq_some, hfd]

theorem object_eq_some {p : Program} {i : Nat} {s : Socket} :
    p.object i = some s ↔ p.objects[i]? = some (some s) := Option.join_eq_some_iff

/-! ## Operations -/

/-- An object gives up what it holds: the descriptor, if there is one, is
closed or handed out (`e`), and nothing holds it afterwards. -/
theorem owned_vacate {p : Program} (h : Owned p.held p.log) {i : Nat} {s : Socket}
    (hi : p.object i = some s) {o : Option Socket} (ho : descriptor? o = none) {e : Int → Event}
    (he : ∀ fd, e fd = .closed fd ∨ e fd = .released fd) :
    Owned ((p.objects.set i o).filterMap descriptor?)
      (p.log ++ if s.valid then [e s.handle] else []) := by
  have hperm := filterMap_set_slot descriptor? o (object_eq_some.1 hi)
  rw [ho, Option.toList_none, List.nil_append] at hperm
  by_cases hvalid : s.valid = true
  · rw [descriptor?, Option.bind_some, if_pos hvalid] at hperm
    rw [if_pos hvalid]
    exact (h.perm hperm.symm).givenUp (he s.handle)
  · rw [descriptor?, Option.bind_some, if_neg hvalid] at hperm
    rw [if_neg hvalid, List.append_nil]
    exact h.perm hperm.symm

theorem owned_use {p : Program} (h : Owned p.held p.log) {i : Nat} {s : Socket}
    (hi : p.object i = some s) : Owned p.held (p.log ++ s.memberCalls) := by
  by_cases hvalid : s.valid = true
  · rw [memberCalls, if_pos hvalid]
    refine h.used (List.mem_filterMap.2 ⟨some s, List.mem_of_getElem? (object_eq_some.1 hi), ?_⟩)
    rw [descriptor?, Option.bind_some, if_pos hvalid]
  · rwa [memberCalls, if_neg hvalid, List.append_nil]

/-- A move-construction hands the descriptor of `other` to a new object. -/
theorem held_moveConstruct {p : Program} {j : Nat} {other : Socket} (hj : p.object j = some other) :
    (p.objects.set j (some other.moveConstruct.2) ++ [some other.moveConstruct.1]).filterMap
      descriptor? ~ p.held := by
  have hperm := filterMap_set_slot descriptor? (some other.moveConstruct.2) (object_eq_some.1 hj)
  have hnew : [some other.moveConstruct.1].filterMap descriptor? =
      (descriptor? (some other)).toList := by
    rw [List.filterMap_cons, List.filterMap_nil]
    cases h : descriptor? (some other) <;> simp [moveConstruct, h]
  rw [List.filterMap_append, hnew]
  exact List.perm_append_comm.trans hperm

/-- A move-assignment to another object closes what that object held, and hands
it the descriptor of `other`. -/
theorem owned_moveAssign {p : Program} (h : Owned p.held p.log) {i j : Nat} {this other : Socket}
    (hij : i ≠ j) (hi : p.object i = some this) (hj : p.object j = some other) :
    Owned (((p.objects.set i (some (this.moveAssign other).1)).set j
        (some (this.moveAssign other).2)).filterMap descriptor?)
      (p.log ++ this.closeCalls) := by
  have hclosed := owned_vacate h hi (o := some this.close) rfl fun fd => .inl rfl
  have hi' : (p.objects.set i (some this.close))[i]? = some (some this.close) :=
    List.getElem?_set_self (List.getElem?_eq_some_iff.1 (object_eq_some.1 hi)).1
  have hj' : (p.objects.set i (some this.close))[j]? = some (some other) := by
    rw [List.getElem?_set_ne hij, object_eq_some.1 hj]
  have hmove := filterMap_move_slot (some (this.moveAssign other).1) (some (this.moveAssign other).2)
    (f := descriptor?) hij hi' hj' rfl rfl rfl
  rw [List.set_set] at hmove
  exact hclosed.perm hmove.symm

/-- **Step**: every operation keeps what the sockets hold and the log in
agreement. -/
theorem owned_step {p p' : Program} {a : Action} (h : Owned p.held p.log)
    (hstep : p.step a = some p') : Owned p'.held p'.log := by
  cases a with
  | construct =>
      cases hstep
      refine h.perm (.of_eq ?_)
      simp [held, descriptor?, valid]
  | acquire fd =>
      obtain ⟨hguard, hnext⟩ := Option.ite_none_left_eq_some.1 hstep
      cases hnext
      simp only [Bool.or_eq_true, decide_eq_true_eq, not_or] at hguard
      obtain ⟨hfd, hfresh⟩ := hguard
      have hnew : descriptor? (some { handle := fd }) = some fd := descriptor?_eq_some.2 ⟨rfl, hfd⟩
      refine (h.acquired (mt (mem_held hfd).1 hfresh)).perm ?_
      simp only [held, List.filterMap_append, List.filterMap_cons, hnew, List.filterMap_nil]
      exact (List.perm_append_singleton fd _).symm
  | moveConstruct j =>
      obtain ⟨other, hj, rfl⟩ := Option.map_eq_some_iff.1 hstep
      exact h.perm (held_moveConstruct hj).symm
  | moveAssign i j =>
      obtain ⟨this, hi, hrest⟩ := Option.bind_eq_some_iff.1 hstep
      obtain ⟨other, hj, rfl⟩ := Option.map_eq_some_iff.1 hrest
      by_cases hij : i = j
      · rwa [if_pos hij]
      · rw [if_neg hij]
        exact owned_moveAssign h hij hi hj
  | use i =>
      obtain ⟨this, hi, rfl⟩ := Option.map_eq_some_iff.1 hstep
      exact owned_use h hi
  | close i =>
      obtain ⟨this, hi, rfl⟩ := Option.map_eq_some_iff.1 hstep
      exact owned_vacate h hi rfl fun fd => .inl rfl
  | release i =>
      obtain ⟨this, hi, rfl⟩ := Option.map_eq_some_iff.1 hstep
      have hout : handedOut this.release.2 = if this.valid then [.released this.handle] else [] := by
        by_cases hvalid : this.handle = invalidHandle <;> simp [handedOut, Socket.release, valid, hvalid]
      rw [hout]
      exact owned_vacate h hi rfl fun fd => .inr rfl
  | destroy i =>
      obtain ⟨this, hi, rfl⟩ := Option.map_eq_some_iff.1 hstep
      exact owned_vacate h hi rfl fun fd => .inl rfl

theorem owned_of_reachable {p : Program} (h : machine.Reachable p) : Owned p.held p.log :=
  h.invariant .empty fun _ _ _ => owned_step

/-! ## The property -/

/-- **A descriptor has one owner.**  At every moment of every program, each
descriptor is held by one object at most; what happened to it is a life, open
exactly while an object holds it, so that it was used only while held and every
acquisition was ended at most once; and once no object is left, every
acquisition was ended by one close or one hand-out. -/
theorem exclusive_ownership {p : Program} (h : machine.Reachable p) {fd : Int}
    (hfd : fd ≠ invalidHandle) :
    (∀ i j, p.object i = some { handle := fd } → p.object j = some { handle := fd } → i = j) ∧
    (life fd).run false p.log = some (p.owns fd) ∧
    p.log.count (.closed fd) + p.log.count (.released fd) ≤ p.log.count (.acquired fd) ∧
    ((∀ i, p.object i = none) →
      p.log.count (.closed fd) + p.log.count (.released fd) = p.log.count (.acquired fd)) := by
  have howned := owned_of_reachable h
  have hlife : (life fd).run false p.log = some (p.owns fd) := by
    rw [howned.lives fd]
    simp only [mem_held hfd, Bool.decide_eq_true]
  have hbalance := life_balance hlife
  refine ⟨fun i j hi hj => ?_, hlife, ?_, fun hall => ?_⟩
  · have hone : descriptor? (some { handle := fd }) = some fd := descriptor?_eq_some.2 ⟨rfl, hfd⟩
    exact slot_unique_of_nodup howned.nodup (object_eq_some.1 hi) (object_eq_some.1 hj) hone hone
  · rw [Bool.toNat_false, Nat.add_zero] at hbalance
    omega
  · have hnone : p.owns fd = false := by
      rw [owns, List.contains_eq_mem, decide_eq_false_iff_not]
      intro hmem
      obtain ⟨i, hi⟩ := List.mem_iff_getElem?.1 hmem
      have hgone := hall i
      rw [object_eq_some.2 hi] at hgone
      cases hgone
    rw [hnone] at hbalance
    exact hbalance

/-- A number that is handed out twice by the system: moved and closed the
first time, released the second time. -/
theorem exclusive_ownership_twice :
    (life 5).run false [.acquired 5, .used 5, .closed 5, .acquired 5, .released 5] = some false :=
  (exclusive_ownership
    (p := ⟨[none, none, some {}], [.acquired 5, .used 5, .closed 5, .acquired 5, .released 5]⟩)
    ⟨[.construct, .acquire 5, .moveAssign 0 1, .use 0, .moveAssign 0 0, .destroy 0, .acquire 5,
      .close 1, .release 2, .destroy 1], by decide⟩ (by decide)).2.1

end Program

end HttpsServer.Socket
