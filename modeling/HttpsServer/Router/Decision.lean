import HttpsServer.History
import HttpsServer.Router

/-!
# HttpsServer.Router.Decision

Which answer a request gets after a history of registrations.

The table keeps every registration, also one for a method and a path that have
a handler already.  `route` scans it twice, first for the pair and then for the
path alone; the outcome is that of a map in which the first registration of a
pair counts (`route_after`).
-/

namespace HttpsServer

open scoped List

variable {H : Type*}

/-- The method and the path that a route serves. -/
def Route.place (r : Route H) : HttpMethod × Bytes := (r.method, r.path)

theorem find?_matches (routes : List (Route H)) (method : HttpMethod) (path : Bytes) :
    routes.find? (Route.matches method path) = firstUnder Route.place (method, path) routes := by
  have hmatches : ∀ r : Route H, Route.matches method path r = decide (r.place = (method, path)) :=
    fun r => by simp [Route.matches, Route.place]
  exact List.find?_congr fun r _ => hmatches r

/-- The target up to its first `?`, whatever the query. -/
theorem HttpRequest.path_eq_takeWhile (r : HttpRequest) :
    r.path = r.target.takeWhile (· ≠ 63) := by
  unfold path
  cases hpos : r.target.idxOf? 63 with
  | none =>
      have hnot : (63 : UInt8) ∉ r.target := by simpa [List.idxOf?_eq_none_iff] using hpos
      have hall : ∀ b ∈ r.target, decide (b ≠ 63) = true := fun b hb =>
        decide_eq_true fun he => hnot (he ▸ hb)
      exact (List.takeWhile_eq_self_iff.mpr hall).symm
  | some pos =>
      obtain ⟨hlt, hmark, hbefore⟩ := List.idxOf?_eq_some_iff.mp hpos
      have hall : ∀ b ∈ r.target.take pos, decide (b ≠ 63) = true := fun b hb => by
        obtain ⟨j, hj, rfl⟩ := List.mem_take_iff_getElem.mp hb
        simpa using hbefore j (by omega)
      have hcut : r.target = r.target.take pos ++ r.target[pos] :: r.target.drop (pos + 1) := by
        rw [List.getElem_cons_drop, List.take_append_drop]
      have hstop : decide (r.target[pos] ≠ 63) = false := by simpa using hmark
      conv => rhs; rw [hcut]
      rw [List.takeWhile_append_of_pos hall, List.takeWhile_cons, hstop]
      simp

namespace Router

/-- The functions that register a route. -/
inductive Verb where
  | get | post | put | patch | deleteRoute | head | options
  deriving DecidableEq

structure Registration (H : Type*) where
  verb : Verb
  path : Bytes
  handler : H

/-- The calls that change a router. -/
inductive Call (H : Type*) where
  | register (registration : Registration H) (slack : Nat)
  | clear

def Verb.method : Verb → HttpMethod
  | .get => .get
  | .post => .post
  | .put => .put
  | .patch => .patch
  | .deleteRoute => .delete
  | .head => .head
  | .options => .options

/-- What the function registers. -/
def Registration.route (r : Registration H) : Route H := ⟨r.verb.method, r.path, r.handler⟩

def register (router : Router H) (r : Registration H) (slack : Nat) : Router H :=
  match r.verb with
  | .get => router.get r.path r.handler slack
  | .post => router.post r.path r.handler slack
  | .put => router.put r.path r.handler slack
  | .patch => router.patch r.path r.handler slack
  | .deleteRoute => router.deleteRoute r.path r.handler slack
  | .head => router.head r.path r.handler slack
  | .options => router.options r.path r.handler slack

def call (router : Router H) : Call H → Router H
  | .register r slack => router.register r slack
  | .clear => router.clear

def Call.edit : Call H → Edit (Route H)
  | .register r _ => .add r.route
  | .clear => .clear

/-- A router after these calls. -/
def after (calls : List (Call H)) : Router H := calls.foldl call make

/-- The routes registered since the last `clear`. -/
def registered (calls : List (Call H)) : List (Route H) := entries (calls.map Call.edit)

theorem values_register (router : Router H) (r : Registration H) (slack : Nat) :
    (router.register r slack).values = router.values ++ [r.route] := by
  obtain ⟨verb, path, handler⟩ := r
  cases verb <;> exact Growable.values_push _ slack

theorem values_after (calls : List (Call H)) : (after calls).values = registered calls := by
  refine simulates_entries (R := fun (router : Router H) routes => router.values = routes) rfl ?_
    calls
  rintro router routes c rfl
  cases c with
  | register r slack => exact values_register router r slack
  | clear => rfl

/-! ## The decision -/

/-- What a request for this method and path is to get where these routes are
registered; the first one of a pair counts. -/
def decision (routes : List (Route H)) (method : HttpMethod) (path : Bytes) : Routed H :=
  match firstUnder Route.place (method, path) routes with
  | some r => .handler r.handler
  | none =>
    if ∃ r ∈ routes, r.path = path ∧ r.method ≠ method then .methodNotAllowed else .notFound

/-- The two scans of `route` come to the decision. -/
theorem route_eq_decision (routes : List (Route H)) (request : HttpRequest) :
    route routes request = decision routes request.method request.path := by
  rw [route, decision, find?_matches]
  cases hfirst : firstUnder Route.place (request.method, request.path) routes with
  | some r => rfl
  | none =>
      have hplace := (firstUnder_eq_none_iff Route.place).mp hfirst
      have hother : routes.any (·.path = request.path) = true ↔
          ∃ r ∈ routes, r.path = request.path ∧ r.method ≠ request.method := by
        rw [List.any_eq_true]
        refine exists_congr fun r => and_congr_right fun hr => ?_
        rw [decide_eq_true_eq]
        refine ⟨fun hpath => ⟨hpath, fun hmethod => ?_⟩, And.left⟩
        exact hplace (List.mem_map.mpr ⟨r, hr, by rw [Route.place, hmethod, hpath]⟩)
      simp only [routeMissed, hother]

theorem decision_eq_handler_iff {routes : List (Route H)} {method : HttpMethod} {path : Bytes} :
    (∃ handler, decision routes method path = .handler handler) ↔
      (method, path) ∈ routes.map Route.place := by
  rw [decision, ← not_iff_not, ← firstUnder_eq_none_iff Route.place]
  cases firstUnder Route.place (method, path) routes with
  | some r => simp
  | none => simp only [iff_true]; split <;> simp

theorem contains_iff (router : Router H) (method : HttpMethod) (path : Bytes) :
    router.contains method path = true ↔ (method, path) ∈ router.values.map Route.place := by
  rw [contains, findRoute, Growable.isSome_locate, find?_matches, Option.isSome_iff_ne_none, ne_eq,
    firstUnder_eq_none_iff, not_not]

/-- Where places differ, the order of registrations does not matter. -/
theorem decision_perm (before after : List (Edit (Route H))) {routes routes' : List (Route H)}
    (h : routes ~ routes') (hnodup : (routes.map Route.place).Nodup) (method : HttpMethod)
    (path : Bytes) :
    decision (entries (before ++ routes.map .add ++ after)) method path =
      decision (entries (before ++ routes'.map .add ++ after)) method path := by
  have hmem : ∀ r, r ∈ entries (before ++ routes.map .add ++ after) ↔
      r ∈ entries (before ++ routes'.map .add ++ after) := fun r =>
    (entries_perm before after h).mem_iff
  simp only [decision, firstUnder_entries_perm Route.place before after h hnodup, hmem]

/-- These registrations, one after the other. -/
def registerAll (rs : List (Registration H × Nat)) : List (Call H) :=
  rs.map fun r => .register r.1 r.2

theorem registered_registerAll (before later : List (Call H)) (rs : List (Registration H × Nat)) :
    registered (before ++ registerAll rs ++ later) =
      entries (before.map Call.edit ++ (rs.map fun r => r.1.route).map .add ++
        later.map Call.edit) := by
  simp [registered, registerAll, Call.edit, Function.comp_def]

/-- **The routing decision**: after every history of registrations and calls of
`clear` the first registration of the pair since the last `clear` answers,
`contains` tells whether there is one, and registrations of different pairs
may come in any order. -/
theorem route_after (calls : List (Call H)) :
    (∀ request : HttpRequest, route (after calls).values request =
      decision (registered calls) request.method (request.target.takeWhile (· ≠ 63))) ∧
    (∀ request : HttpRequest, (after calls).contains request.method request.path = true ↔
      ∃ handler, route (after calls).values request = .handler handler) ∧
    (∀ method path, (after calls).contains method path = true ↔
      (method, path) ∈ (registered calls).map Route.place) ∧
    ∀ (before later : List (Call H)) (rs rs' : List (Registration H × Nat)),
      calls = before ++ registerAll rs ++ later → rs.map Prod.fst ~ rs'.map Prod.fst →
      (rs.map fun r => r.1.route.place).Nodup →
      (∀ request : HttpRequest, route (after calls).values request =
        route (after (before ++ registerAll rs' ++ later)).values request) ∧
      ∀ method path, (after calls).contains method path =
        (after (before ++ registerAll rs' ++ later)).contains method path := by
  have hcontains : ∀ (calls : List (Call H)) method path, (after calls).contains method path = true ↔
      ∃ handler, decision (registered calls) method path = .handler handler := by
    intro calls method path
    rw [contains_iff, values_after, decision_eq_handler_iff]
  refine ⟨fun request => ?_, fun request => ?_, fun method path => ?_, ?_⟩
  · rw [route_eq_decision, values_after, request.path_eq_takeWhile]
  · rw [hcontains, route_eq_decision, values_after]
  · rw [contains_iff, values_after]
  · rintro before later rs rs' rfl hperm hnodup
    have hroutes : rs.map (fun r => r.1.route) ~ rs'.map fun r => r.1.route := by
      simpa [Function.comp_def] using hperm.map Registration.route
    have hsame : ∀ method path, decision (registered (before ++ registerAll rs ++ later)) method path =
        decision (registered (before ++ registerAll rs' ++ later)) method path := by
      intro method path
      rw [registered_registerAll, registered_registerAll]
      exact decision_perm _ _ hroutes (by simpa [Function.comp_def] using hnodup) method path
    refine ⟨fun request => ?_, fun method path => Bool.eq_iff_iff.mpr ?_⟩
    · rw [route_eq_decision, route_eq_decision, values_after, values_after, hsame]
    · rw [hcontains, hcontains, hsame]

/-- Two routes for one path, in both orders. -/
theorem route_after_swapped :
    route (after [.register ⟨.get, ascii "/", 1⟩ 0, .register ⟨.post, ascii "/", 2⟩ 0]).values
        { method := .post, target := ascii "/?a" } =
      route (after [.register ⟨.post, ascii "/", 2⟩ 0, .register ⟨.get, ascii "/", 1⟩ 0]).values
        { method := .post, target := ascii "/?a" } := by
  have hperm := (route_after [.register ⟨.get, ascii "/", 1⟩ 0, .register ⟨.post, ascii "/", 2⟩ 0]).2.2.2
    [] [] [(⟨.get, ascii "/", 1⟩, 0), (⟨.post, ascii "/", 2⟩, 0)]
    [(⟨.post, ascii "/", 2⟩, 0), (⟨.get, ascii "/", 1⟩, 0)] rfl (.swap _ _ _) (by decide)
  exact hperm.1 _

end Router

end HttpsServer
