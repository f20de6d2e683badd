import SealedHttp.Routing.Tree

/-!
# Looking up paths

A path is followed down the tree. Bytes are preferred to a parameter; the parameter is tried when
the bytes lead nowhere. Looking up ends for good where only a slash is left, or where just a slash
is missing: such a path is not handed to a more general route.
-/

namespace SealedHttp.Routing

inductive Outcome where
  /-- A route, the parts of the path that its parameters captured, and the capture of the rest with
  its name. -/
  | found (t : Target) (captured : List Bytes) (rest : Option (Bytes × Bytes))
  /-- No route here; a parameter passed over before may lead to one. -/
  | missed
  /-- No route, and no further attempts. -/
  | stopped
  deriving DecidableEq, Repr

namespace Outcome

def capture (value : Bytes) : Outcome → Outcome
  | found t captured rest => found t (value :: captured) rest
  | o => o

def orElse (first second : Outcome) : Outcome :=
  match first with
  | missed => second
  | o => o

def unmatched (path : Bytes) : Outcome := if path = [slash] then stopped else missed

end Outcome

mutual

def Node.find (path : Bytes) : Node → Outcome
  | .mk label target _ children wild =>
    match path.drop label.length with
    | [] =>
      if path = label then
        match target with
        | some t => .found t [] none
        | none => .unmatched path
      else if label = path ++ [slash] ∧ target.isSome then .stopped
      else .unmatched path
    | b :: rest =>
      if label.isPrefixOf path then
        match wild with
        | .none => (children.find b (b :: rest) target.isSome).getD (.unmatched (b :: rest))
        | _ =>
          match children.find b (b :: rest) target.isSome with
          | some first => first.orElse (wild.find (b :: rest))
          | none => wild.find (b :: rest)
      else .unmatched path

/-- Follows a path into the child that begins with `b`, if there is one; `ends` tells whether a
route ends in front of it. -/
def Children.find (b : UInt8) (path : Bytes) (ends : Bool) : Children → Option Outcome
  | .nil => none
  | .cons first others =>
    if first.label.head? = some b then
      some (if path = [slash] ∧ first.label ≠ [slash] ∧ ends then .stopped else first.find path)
    else others.find b path ends

def Wild.find (path : Bytes) : Wild → Outcome
  | .none => .unmatched path
  | .param target =>
    match path.dropWhile (· ≠ slash), target with
    | [], some t => .found t [path] none
    | [], none => .stopped
    | [_], _ => .stopped
    | _, _ => .unmatched path
  | .paramThen target next =>
    let value := path.takeWhile (· ≠ slash)
    match path.dropWhile (· ≠ slash) with
    | [] =>
      match target with
      | some t => .found t [path] none
      | none => if next.label = [slash] ∧ next.target.isSome then .stopped else .missed
    | rest =>
      if rest = [slash] ∧ next.label ≠ [slash] ∧ target.isSome then .stopped
      else if value.isEmpty then .unmatched path
      else (next.find rest).capture value
  | .rest name t => .found t [] (some (name, path))

end

end SealedHttp.Routing
