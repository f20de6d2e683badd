import SealedHttp.Routing.Lookup
import SealedHttp.Text.Utf8

/-!
# Route tables

A table maps routes to what serves them, in the order of insertion. A refused route leaves the table
as it was.
-/

namespace SealedHttp

inductive RoutingError where
  | unmapped (path : String)
  | refused (path : String) (reason : Routing.Refusal)
  deriving DecidableEq, Repr

namespace Routing

def Refusal.message : Refusal → String
  | conflict route =>
    "insertion failed due to conflict with previously registered route: " ++ Utf8.decodeLossy route
  | crowdedSegment => "only one parameter is allowed per path segment"
  | unnamed => "parameters must be registered with a name"
  | misplacedRest => "catch-all parameters are only allowed at the end of a route"
  | tooManyParams => "too many route parameters"

end Routing

def RoutingError.message : RoutingError → String
  | unmapped path => "no route for " ++ path
  | refused path reason => s!"invalid route {path}: " ++ reason.message

structure Routes (τ : Type) where
  tree : Routing.Node := .blank
  entries : List (String × τ) := []

structure Resolved (τ : Type) where
  pattern : String
  served : τ
  /-- Names and captures of the parameters, in the order of the route. -/
  params : List (Bytes × Bytes)

namespace Routes

variable {τ : Type}

def empty : Routes τ := {}

def insert (path : String) (served : τ) (r : Routes τ) : Except RoutingError (Routes τ) :=
  match Routing.parse (Bytes.ofText path) with
  | .error reason => .error (.refused path reason)
  | .ok parts =>
    match r.tree.add ⟨r.entries.length, parts.names⟩ parts with
    | .error reason => .error (.refused path reason)
    | .ok tree => .ok ⟨tree, r.entries ++ [(path, served)]⟩

def resolve (path : String) (r : Routes τ) : Except RoutingError (Resolved τ) :=
  match r.tree.find (Bytes.ofText path) with
  | .found t captured rest =>
    match r.entries[t.index]? with
    | some (pattern, served) => .ok ⟨pattern, served, t.names.zip captured ++ rest.toList⟩
    | none => .error (.unmapped path)
  | _ => .error (.unmapped path)

end Routes
end SealedHttp
