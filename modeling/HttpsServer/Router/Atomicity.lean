import HttpsServer.Machine
import HttpsServer.Router

/-!
# HttpsServer.Router.Atomicity

One call of `route` while other threads register and clear routes.

Every operation holds the lock for its own critical section only: `route` looks
for its route in one, looks for the path in another, and uses the route that it
has found in none.  So the call is atomic exactly when no `clear` and no
`add_route` that moves the routes comes between the lookup and the use, and the
second lookup does not find a path by the very route that the first one missed
(`atomic_iff`).
-/

namespace HttpsServer.Router

variable {H : Type*}

/-- Where the thread that calls `route` stands. -/
inductive Control (H : Type*) where
  | ready
  /-- `path` has been copied. -/
  | entered
  /-- `find_route` has returned this pointer; it was taken of this element. -/
  | found (exact : Pointer) (object : Object (Route H))
  /-- `find_route` has returned null. -/
  | missed
  /-- The handler of what stands at the place has been invoked, if a route
  stands there. -/
  | invoked (object : Object (Route H)) (used : Option (Object (Route H)))
  /-- The second lookup has decided. -/
  | answered (routed : Routed H)

structure State (H : Type*) where
  routes : Router H
  control : Control H := .ready
  /-- The tables that have existed since the call began. -/
  seen : List (List (Route H)) := []

inductive Action (H : Type*) where
  /-- `add_route` in some thread. -/
  | addRoute (method : HttpMethod) (path : Bytes) (handler : H) (slack : Nat)
  /-- `clear` in some thread. -/
  | clear
  /-- `route(request)` is called. -/
  | call
  /-- `find_route(request.method(), path)` -/
  | firstLookup
  /-- `exact->handler(request)` -/
  | use
  /-- `find_if` under the lock of `route` itself. -/
  | secondLookup

/-- The call of `route` is under way. -/
def Control.running : Control H → Bool
  | .entered | .found _ _ | .missed => true
  | .ready | .invoked _ _ | .answered _ => false

/-- The call of `route` is over. -/
def Control.finished : Control H → Bool
  | .invoked _ _ | .answered _ => true
  | .ready | .entered | .found _ _ | .missed => false

/-- A thread has changed the table. -/
def State.write (s : State H) (routes : Router H) : State H where
  routes := routes
  control := s.control
  seen := if s.control.running then s.seen ++ [routes.values] else s.seen

/-- One step of a thread, with the request of the call. -/
def State.step (request : HttpRequest) (s : State H) (a : Action H) : Option (State H) :=
  match s.control, a with
  | _, .addRoute method path handler slack =>
    some (s.write (s.routes.addRoute method path handler slack))
  | _, .clear => some (s.write s.routes.clear)
  | .ready, .call => some { s with control := .entered, seen := [s.routes.values] }
  | .entered, .firstLookup =>
    match s.routes.findRoute request.method request.path with
    | some (exact, object) => some { s with control := .found exact object }
    | none => some { s with control := .missed }
  | .found exact object, .use => some { s with control := .invoked object (s.routes.deref exact) }
  | .missed, .secondLookup =>
    some { s with control := .answered (routeMissed s.routes.values request.path) }
  | _, _ => none

/-- A call of `route` on a table that other threads change. -/
def machine (routes : Router H) (request : HttpRequest) : Machine (State H) (Action H) where
  init := { routes := routes }
  step := State.step request

/-! ## What a step can do -/

inductive Step (request : HttpRequest) (s : State H) : Action H → State H → Prop
  | added (method : HttpMethod) (path : Bytes) (handler : H) (slack : Nat) :
      Step request s (.addRoute method path handler slack)
        (s.write (s.routes.addRoute method path handler slack))
  | cleared : Step request s .clear (s.write s.routes.clear)
  | called : s.control = .ready →
      Step request s .call { s with control := .entered, seen := [s.routes.values] }
  | found {exact : Pointer} {object : Object (Route H)} : s.control = .entered →
      s.routes.findRoute request.method request.path = some (exact, object) →
      Step request s .firstLookup { s with control := .found exact object }
  | missed : s.control = .entered →
      s.routes.findRoute request.method request.path = none →
      Step request s .firstLookup { s with control := .missed }
  | used {exact : Pointer} {object : Object (Route H)} : s.control = .found exact object →
      Step request s .use { s with control := .invoked object (s.routes.deref exact) }
  | answered : s.control = .missed →
      Step request s .secondLookup
        { s with control := .answered (routeMissed s.routes.values request.path) }

theorem Step.of_step {request : HttpRequest} {s t : State H} {a : Action H}
    (h : s.step request a = some t) : Step request s a t := by
  unfold State.step at h
  split at h
  · next method path handler slack =>
    cases h
    exact .added method path handler slack
  · cases h
    exact .cleared
  · next hs =>
    cases h
    exact .called hs
  · next hs =>
    split at h
    · next hfound =>
      cases h
      exact .found hs hfound
    · next hmissed =>
      cases h
      exact .missed hs hmissed
  · next hs =>
    cases h
    exact .used hs
  · next hs =>
    cases h
    exact .answered hs
  · contradiction

/-! ## Atomicity -/

/-- What the call has come to; `none` where it has used a place without a
route. -/
def Control.outcome : Control H → Option (Routed H)
  | .invoked _ used => used.map fun o => .handler o.value.handler
  | .answered routed => some routed
  | _ => none

/-- The outcome is that of one table, and the route used is the one found. -/
structure Atomic (request : HttpRequest) (s : State H) : Prop where
  linear : ∃ table ∈ s.seen, s.control.outcome = some (route table request)
  inPlace : ∀ object used, s.control = .invoked object used → used = some object

/-- No routes are cleared or moved between the lookup and the use; and where
the second lookup finds the path by the route itself, some table of the call
has had the path without it. -/
def Undisturbed (request : HttpRequest) (s : State H) (a : Action H) : Prop :=
  match s.control, a with
  | .found _ _, .addRoute _ _ _ _ => s.routes.HasRoom
  | .found _ _, .clear => False
  | .missed, .secondLookup =>
    s.routes.values.find? (Route.matches request.method request.path) = none ∨
      ∃ table ∈ s.seen, OtherMethodsOnly table request
  | _, _ => True

instance decidableUndisturbed [DecidableEq H] (request : HttpRequest) (s : State H)
    (a : Action H) : Decidable (Undisturbed request s a) := by
  unfold Undisturbed
  split <;> infer_instance

/-- The call is on its way to the outcome of one of the tables. -/
def Sound (request : HttpRequest) (s : State H) : Prop :=
  match s.control with
  | .ready => True
  | .entered | .missed => s.routes.values ∈ s.seen
  | .found exact object =>
    s.routes.deref exact = some object ∧
      ∃ table ∈ s.seen, route table request = .handler object.value.handler
  | .invoked object used =>
    used = some object ∧ ∃ table ∈ s.seen, route table request = .handler object.value.handler
  | .answered routed => ∃ table ∈ s.seen, route table request = routed

/-- The call has gone wrong. -/
def Broken (request : HttpRequest) (s : State H) : Prop :=
  match s.control with
  | .ready | .entered | .missed => False
  | .found exact object => s.routes.Lost exact object
  | .invoked object used => used ≠ some object
  | .answered routed => ∀ table ∈ s.seen, route table request ≠ routed

variable {request : HttpRequest} {s t : State H} {a : Action H}

/-- The tables of the call stay, and the new one is one of them. -/
theorem mem_seen_write {table : List (Route H)} (routes : Router H) (h : table ∈ s.seen) :
    table ∈ (s.write routes).seen := by
  unfold State.write
  dsimp only
  split
  · exact List.mem_append_left _ h
  · exact h

theorem Sound.write {routes : Router H} (h : Sound request s)
    (hheld : ∀ exact object, s.control = .found exact object →
      s.routes.deref exact = some object → routes.deref exact = some object) :
    Sound request (s.write routes) := by
  have hkeep : ∀ {routed : Routed H}, (∃ table ∈ s.seen, route table request = routed) →
      ∃ table ∈ (s.write routes).seen, route table request = routed :=
    fun ⟨table, hmem, htable⟩ => ⟨table, mem_seen_write routes hmem, htable⟩
  have hcontrol : (s.write routes).control = s.control := rfl
  unfold Sound at h ⊢
  rw [hcontrol]
  cases hc : s.control with
  | ready => trivial
  | entered | missed => simp [State.write, hc, Control.running]
  | found exact object =>
      rw [hc] at h
      exact ⟨hheld exact object hc h.1, hkeep h.2⟩
  | invoked object used =>
      rw [hc] at h
      exact ⟨h.1, hkeep h.2⟩
  | answered routed =>
      rw [hc] at h
      exact hkeep h

/-- An undisturbed step leaves the call sound. -/
theorem Sound.step (h : Sound request s) (hu : Undisturbed request s a)
    (hst : Step request s a t) : Sound request t := by
  cases hst with
  | added method path handler slack =>
      refine h.write fun exact object hc hderef => Growable.deref_push hderef ?_ _ slack
      simpa [Undisturbed, hc] using hu
  | cleared =>
      refine h.write fun exact object hc _ => ?_
      simp [Undisturbed, hc] at hu
  | called hs => exact List.mem_singleton_self _
  | @found exact object hs hfound =>
      have hmem : s.routes.values ∈ s.seen := by simpa [Sound, hs] using h
      obtain ⟨hderef, hfind⟩ := Growable.locate_eq_some hfound
      exact ⟨hderef, _, hmem, route_of_find hfind⟩
  | missed hs hmissed => simpa [Sound, hs] using h
  | used hs => simpa [Sound, hs] using h
  | answered hs =>
      have hmem : s.routes.values ∈ s.seen := by simpa [Sound, hs] using h
      cases hfind : s.routes.values.find? (Route.matches request.method request.path) with
      | none => exact ⟨_, hmem, route_of_not_found hfind⟩
      | some r =>
          obtain ⟨table, htable, hother⟩ : ∃ table ∈ s.seen, OtherMethodsOnly table request := by
            simpa [Undisturbed, hs, hfind] using hu
          refine ⟨table, htable, ?_⟩
          rw [routeMissed_of_find hfind]
          exact route_eq_methodNotAllowed_iff.mpr hother

/-- What has gone wrong stays wrong. -/
theorem Broken.step (h : Broken request s) (hst : Step request s a t) : Broken request t := by
  cases hst with
  | added method path handler slack =>
      cases hc : s.control <;>
        simp only [Broken, State.write, hc, Control.running, if_false, Bool.false_eq_true] at h ⊢
      · exact h.push _ slack
      · exact h
      · exact h
  | cleared =>
      cases hc : s.control <;>
        simp only [Broken, State.write, hc, Control.running, if_false, Bool.false_eq_true] at h ⊢
      · exact h.clear
      · exact h
      · exact h
  | called hs | found hs _ | missed hs _ | answered hs => simp [Broken, hs] at h
  | used hs =>
      simp only [Broken, hs] at h
      exact h.deref_ne

/-- A step that disturbs a sound call breaks it. -/
theorem Broken.of_disturbed (h : Sound request s) (hu : ¬ Undisturbed request s a)
    (hst : Step request s a t) : Broken request t := by
  cases hst with
  | added method path handler slack =>
      cases hc : s.control with
      | found exact object =>
          simp only [Undisturbed, hc] at hu
          simp only [Sound, hc] at h
          simp only [Broken, State.write, hc]
          exact Growable.Lost.of_push h.1 hu _ slack
      | _ => simp [Undisturbed, hc] at hu
  | cleared =>
      cases hc : s.control with
      | found exact object =>
          simp only [Sound, hc] at h
          simp only [Broken, State.write, hc]
          exact Growable.Lost.of_clear h.1
      | _ => simp [Undisturbed, hc] at hu
  | called hs | found hs _ | missed hs _ | used hs => simp [Undisturbed, hs] at hu
  | answered hs =>
      simp only [Undisturbed, hs, not_or, not_exists, not_and] at hu
      obtain ⟨r, hfind⟩ := Option.ne_none_iff_exists'.mp hu.1
      simp only [Broken, routeMissed_of_find hfind]
      exact fun table htable hroute => hu.2 table htable (route_eq_methodNotAllowed_iff.mp hroute)

theorem Sound.not_broken (h : Sound request s) : ¬ Broken request s := by
  intro hb
  unfold Sound at h
  unfold Broken at hb
  cases hc : s.control with
  | ready | entered | missed => simp [hc] at hb
  | found exact object =>
      rw [hc] at h hb
      exact hb.deref_ne h.1
  | invoked object used =>
      rw [hc] at h hb
      exact hb h.1
  | answered routed =>
      rw [hc] at h hb
      obtain ⟨table, hmem, htable⟩ := h
      exact hb table hmem htable

/-- A call that is over is atomic when it is sound. -/
theorem atomic_iff_sound (hs : s.control.finished = true) :
    Atomic request s ↔ Sound request s := by
  unfold Sound
  cases hc : s.control with
  | ready | entered | missed | found exact object => simp [hc, Control.finished] at hs
  | invoked object used =>
      constructor
      · rintro ⟨⟨table, hmem, htable⟩, hplace⟩
        obtain rfl := hplace object used hc
        refine ⟨rfl, table, hmem, ?_⟩
        simpa [hc, Control.outcome] using htable.symm
      · rintro ⟨rfl, table, hmem, htable⟩
        refine ⟨⟨table, hmem, by simp [hc, Control.outcome, htable]⟩, ?_⟩
        rintro _ _ hinvoked
        obtain ⟨rfl, rfl⟩ := Control.invoked.inj (hc.symm.trans hinvoked)
        rfl
  | answered routed =>
      constructor
      · rintro ⟨⟨table, hmem, htable⟩, -⟩
        exact ⟨table, hmem, by simpa [hc, Control.outcome] using htable.symm⟩
      · rintro ⟨table, hmem, htable⟩
        refine ⟨⟨table, hmem, by simp [hc, Control.outcome, htable]⟩, ?_⟩
        rintro _ _ hinvoked
        rw [hc] at hinvoked
        contradiction

/-! ## A call alone -/

/-- An operation of another thread. -/
def Action.writes : Action H → Bool
  | .addRoute _ _ _ _ | .clear => true
  | _ => false

/-- The call is on its way to what `route` decides on this table. -/
def Alone (routes : Router H) (request : HttpRequest) (s : State H) : Prop :=
  s.routes = routes ∧
    match s.control with
    | .ready | .entered => True
    | .found exact object =>
      routes.deref exact = some object ∧
        route routes.values request = .handler object.value.handler
    | .missed => route routes.values request = routeMissed routes.values request.path
    | .invoked object used =>
      used = some object ∧ route routes.values request = .handler object.value.handler
    | .answered routed => route routes.values request = routed

theorem Alone.step {routes : Router H} (h : Alone routes request s) (ha : a.writes = false)
    (hst : Step request s a t) : Alone routes request t := by
  obtain ⟨rfl, h⟩ := h
  cases hst with
  | added | cleared => contradiction
  | called hs => exact ⟨rfl, trivial⟩
  | found hs hfound =>
      obtain ⟨hderef, hfind⟩ := Growable.locate_eq_some hfound
      exact ⟨rfl, hderef, route_of_find hfind⟩
  | missed hs hmissed => exact ⟨rfl, route_of_not_found (Growable.locate_eq_none hmissed)⟩
  | used hs =>
      rw [hs] at h
      exact ⟨rfl, h⟩
  | answered hs =>
      rw [hs] at h
      exact ⟨rfl, h⟩

/-- **Alone, the machine is `route`**: without an operation of another thread
a call that is over has come to what `route` decides. -/
theorem outcome_of_alone {routes : Router H} {as : List (Action H)}
    (h : (machine routes request).run (machine routes request).init as = some s)
    (has : ∀ a ∈ as, a.writes = false) (hs : s.control.finished = true) :
    s.control.outcome = some (route routes.values request) := by
  obtain ⟨-, hend⟩ := Machine.run_along (I := Alone routes request)
    (fun u a v hu ha hst => hu.step ha (.of_step hst)) h (.of_forall has _) ⟨rfl, trivial⟩
  cases hc : s.control with
  | ready | entered | missed | found exact object => simp [hc, Control.finished] at hs
  | invoked object used =>
      rw [hc] at hend
      simp [Control.outcome, hend.1, hend.2]
  | answered routed =>
      rw [hc] at hend
      simp [Control.outcome, hend]

/-! ## Atomicity of the call -/

/-- **The call is atomic exactly when it is undisturbed.** -/
theorem atomic_iff {routes : Router H} {as : List (Action H)}
    (h : (machine routes request).run (machine routes request).init as = some s)
    (hfinished : s.control.finished = true) :
    Atomic request s ↔
      (machine routes request).Along (Undisturbed request) (machine routes request).init as := by
  rw [atomic_iff_sound hfinished]
  exact (Machine.along_iff_of_breaks (B := Broken request)
    (fun u a v hu hP hst => hu.step hP (.of_step hst))
    (fun u a v hu hP hst => .of_disturbed hu hP (.of_step hst))
    (fun u a v hu hst => hu.step (.of_step hst)) (fun u hu => hu.not_broken) h trivial).symm

/-- A route is registered between the lookup and the use, and there is room for
it. -/
theorem atomic_iff_room :
    ∃ s, (machine (make.addRoute .get (ascii "/") 1 1)
        { method := .get, target := ascii "/" }).run
        (machine (make.addRoute .get (ascii "/") 1 1)
          { method := .get, target := ascii "/" }).init
        [.call, .firstLookup, .addRoute .post (ascii "/") 2 0, .use] = some s ∧
      Atomic { method := .get, target := ascii "/" } s := by
  obtain ⟨s, hs, hfinished⟩ := Option.map_eq_some_iff.mp (show
    ((machine (make.addRoute .get (ascii "/") 1 1) { method := .get, target := ascii "/" }).run
      (machine (make.addRoute .get (ascii "/") 1 1) { method := .get, target := ascii "/" }).init
      [.call, .firstLookup, .addRoute .post (ascii "/") 2 0, .use]).map
      (·.control.finished) = some true by decide +kernel)
  exact ⟨s, hs, (atomic_iff hs hfinished).mpr (by decide +kernel)⟩

/-- The routes are cleared between the lookup and the use. -/
theorem not_atomic_clear :
    ¬ ∀ (routes : Router Nat) (request : HttpRequest) (as : List (Action Nat)) (s : State Nat),
      (machine routes request).run (machine routes request).init as = some s →
        s.control.finished = true → Atomic request s := by
  intro h
  obtain ⟨s, hs, hgone⟩ := Option.map_eq_some_iff.mp (show
    ((machine (make.addRoute .get (ascii "/") 1 1) { method := .get, target := ascii "/" }).run
      (machine (make.addRoute .get (ascii "/") 1 1) { method := .get, target := ascii "/" }).init
      [.call, .firstLookup, .clear, .use]).map
      (fun s => (s.control.finished, s.control.outcome)) = some (true, none) by decide +kernel)
  obtain ⟨hfinished, hnone⟩ := Prod.mk.inj hgone
  obtain ⟨table, -, htable⟩ := (h _ _ _ s hs hfinished).linear
  rw [hnone] at htable
  contradiction

end HttpsServer.Router
