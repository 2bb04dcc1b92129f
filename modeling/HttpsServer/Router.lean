import HttpsServer.Growable
import HttpsServer.Response

/-!
# HttpsServer.Router

`Router` (`router.hpp`, `router.cpp`), one operation at a time: the table of
routes, how it is filled, and what `route` makes of a request on one table.

Handlers are of an arbitrary type, and what `route` invokes is part of its
result.
-/

namespace HttpsServer

variable {H : Type*}

structure Route (H : Type*) where
  method : HttpMethod
  path : Bytes
  handler : H
  deriving DecidableEq

/-- What `route` decides to do. -/
inductive Routed (H : Type*) where
  /-- The handler of the route that was found is invoked. -/
  | handler (handler : H)
  | methodNotAllowed
  | notFound
  deriving DecidableEq

/-- The response, with the call of a handler; `none` when it throws. -/
def Routed.response (call : H → HttpRequest → Option HttpResponse) (request : HttpRequest) :
    Routed H → Option HttpResponse
  | handler h => call h request
  | methodNotAllowed => some (.methodNotAllowed (ascii "Method Not Allowed"))
  | notFound => some (.notFound (ascii "Not Found"))

/-- `routes_` -/
abbrev Router (H : Type*) := Growable (Route H)

/-- The condition of the lookup in `find_route`. -/
def Route.matches (method : HttpMethod) (path : Bytes) (r : Route H) : Bool :=
  r.method = method && r.path = path

namespace Router

/-- A router without routes. -/
def make : Router H where
  block := 0
  capacity := 0
  objects := []
  births := 0
  fits := Nat.le_refl _
  born := nofun

def addRoute (router : Router H) (method : HttpMethod) (path : Bytes) (handler : H)
    (slack : Nat) : Router H :=
  router.push ⟨method, path, handler⟩ slack

section Registration

variable (router : Router H) (path : Bytes) (handler : H) (slack : Nat)

def get : Router H := router.addRoute .get path handler slack

def post : Router H := router.addRoute .post path handler slack

def put : Router H := router.addRoute .put path handler slack

def patch : Router H := router.addRoute .patch path handler slack

def deleteRoute : Router H := router.addRoute .delete path handler slack

def head : Router H := router.addRoute .head path handler slack

def options : Router H := router.addRoute .options path handler slack

end Registration

/-- `find_route`: the pointer it returns, with what it points to. -/
def findRoute (router : Router H) (method : HttpMethod) (path : Bytes) :
    Option (Pointer × Object (Route H)) :=
  router.locate (Route.matches method path)

def contains (router : Router H) (method : HttpMethod) (path : Bytes) : Bool :=
  (router.findRoute method path).isSome

end Router

/-- The second lookup of `route`. -/
def routeMissed (routes : List (Route H)) (path : Bytes) : Routed H :=
  if routes.any (·.path = path) then .methodNotAllowed else .notFound

/-- `route` on one table. -/
def route (routes : List (Route H)) (request : HttpRequest) : Routed H :=
  match routes.find? (Route.matches request.method request.path) with
  | some exact => .handler exact.handler
  | none => routeMissed routes request.path

theorem route_of_find {routes : List (Route H)} {request : HttpRequest} {r : Route H}
    (h : routes.find? (Route.matches request.method request.path) = some r) :
    route routes request = .handler r.handler := by
  rw [route, h]

theorem route_of_not_found {routes : List (Route H)} {request : HttpRequest}
    (h : routes.find? (Route.matches request.method request.path) = none) :
    route routes request = routeMissed routes request.path := by
  rw [route, h]

/-- Where the route itself is in the table, its path is. -/
theorem routeMissed_of_find {routes : List (Route H)} {request : HttpRequest} {r : Route H}
    (h : routes.find? (Route.matches request.method request.path) = some r) :
    routeMissed routes request.path = .methodNotAllowed := by
  have hmem := List.mem_of_find?_eq_some h
  have hmatch := List.find?_some h
  simp only [Route.matches, Bool.and_eq_true, decide_eq_true_eq] at hmatch
  rw [routeMissed, if_pos (List.any_eq_true.mpr ⟨r, hmem, by simp [hmatch.2]⟩)]

/-- The table has the request's path, but under other methods only. -/
def OtherMethodsOnly (routes : List (Route H)) (request : HttpRequest) : Prop :=
  routes.any (·.path = request.path) = true ∧
    routes.find? (Route.matches request.method request.path) = none

instance [DecidableEq H] (routes : List (Route H)) (request : HttpRequest) :
    Decidable (OtherMethodsOnly routes request) := by
  unfold OtherMethodsOnly; infer_instance

/-- When `route` answers 405. -/
theorem route_eq_methodNotAllowed_iff {routes : List (Route H)} {request : HttpRequest} :
    route routes request = .methodNotAllowed ↔ OtherMethodsOnly routes request := by
  unfold OtherMethodsOnly
  cases hfind : routes.find? (Route.matches request.method request.path) with
  | some r => simp [route_of_find hfind]
  | none =>
      rw [route_of_not_found hfind, routeMissed]
      split
      · next hany => simp [hany]
      · next hany => simp [hany]

end HttpsServer
