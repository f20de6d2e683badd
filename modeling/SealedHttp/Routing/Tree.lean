import SealedHttp.Routing.Pattern

/-!
# Route trees

Routes that begin alike share nodes. A node holds the bytes that lead to it, the route that ends
there and what may follow: further bytes, and one parameter. Busy children come first, which shows
in the routes that a refusal names.

Looking up a path prefers bytes to a parameter, and falls back on the parameter if the bytes lead
nowhere. There is no falling back once only a slash is left that no route ends with, nor when the
route of the path plus a slash exists.
-/

namespace SealedHttp.Routing

/-- The end of a route: its number and the names of its parameters. -/
structure Target where
  index : Nat
  names : List Bytes
  deriving DecidableEq, Repr

mutual

inductive Node where
  | mk (label : Bytes) (target : Option Target) (priority : Nat) (children : Children) (wild : Wild)

/-- The children of a node that begin with a byte each, the busiest first. -/
inductive Children where
  | nil
  | cons (first : Node) (others : Children)

inductive Wild where
  | none
  /-- A parameter that ends all of its routes. -/
  | param (target : Option Target)
  /-- A parameter behind which routes go on. -/
  | paramThen (target : Option Target) (next : Node)
  | rest (name : Bytes) (target : Target)

end

namespace Node

def blank : Node := .mk [] none 0 .nil .none

def label : Node → Bytes
  | mk label _ _ _ _ => label

def target : Node → Option Target
  | mk _ target _ _ _ => target

def priority : Node → Nat
  | mk _ _ priority _ _ => priority

def isUnused : Node → Bool
  | mk [] _ _ .nil .none => true
  | _ => false

def bump : Node → Node
  | mk label target priority children wild => mk label target (priority + 1) children wild

/-- Puts a route at a node whose label is not fixed yet. `whole` tells that nothing of the route was
used up so far. -/
def fill (t : Target) (whole : Bool) (parts : Pattern) : Node → Except Refusal Node
  | mk label target priority children wild =>
    let literal := parts.literal
    let label := if literal.isEmpty then label else literal
    match _h : parts.wild with
    | [] => .ok (mk literal (some t) priority children wild)
    | .param _ :: more =>
      if more.isEmpty then .ok (mk label target priority children (.param (some t)))
      else (fill t false more (mk [] none 1 .nil .none)).map fun next =>
        mk label target priority children (.paramThen none next)
    | .rest name :: more =>
      if ¬more.isEmpty ∨ (¬literal.isEmpty ∧ literal.getLast? ≠ some slash) ∨
          (whole ∧ literal.head? ≠ some slash) then .error .misplacedRest
      else .ok (mk label target priority children (.rest name t))
    | .byte _ :: _ => .ok (mk label target priority children wild)
termination_by parts.length
decreasing_by
  have := parts.length_wild_le
  simp_all only [List.length_cons]
  omega

def grow (t : Target) (whole : Bool) (parts : Pattern) : Except Refusal Node :=
  fill t whole parts (mk [] none 1 .nil .none)

def shared : Bytes → Pattern → Nat
  | b :: bs, .byte c :: ps => if b = c then shared bs ps + 1 else 0
  | _, _ => 0

end Node

mutual

/-- The route along the busiest children of a node, and the names of its parameters. -/
def Node.busiest : Node → Pattern × List Bytes
  | .mk label target _ children wild =>
    let (more, names) := match children with
      | .cons first _ => first.busiest
      | .nil => wild.busiest ((target.map Target.names).getD [])
    (label.map .byte ++ more, names)

/-- The route along a parameter; `names` are those of the route that ends in front of it. -/
def Wild.busiest (names : List Bytes) : Wild → Pattern × List Bytes
  | .none => ([], names)
  | .param target => ([.param []], (target.map Target.names).getD [])
  | .paramThen _ next =>
    let (more, names) := next.busiest
    (.param [] :: more, names)
  | .rest name target => ([.rest name], target.names)

end

def Node.obstacle (used : Pattern) (node : Node) : Bytes :=
  let (more, names) := node.busiest
  let label := node.label.map Part.byte
  let more := if label.isSuffixOf used then more.drop label.length else more
  Pattern.rename (used ++ more) names

def Wild.obstacle (used : Pattern) (wild : Wild) : Bytes :=
  let (more, names) := wild.busiest []
  Pattern.rename (used ++ more) names

mutual

def Node.insert (t : Target) (used parts : Pattern) (node : Node) : Except Refusal Node :=
  match node with
  | .mk label target priority children wild =>
    let n := Node.shared label parts
    let behind := used ++ parts.take n
    let left := parts.drop n
    if n < label.length then
      -- the node is divided, and the lower half keeps everything
      let label' := label.take n
      let lower := Node.mk (label.drop n) target priority children wild
      match left with
      | [] => .ok (.mk label' (some t) (priority + 1) (.cons lower .nil) .none)
      | .byte _ :: _ => (Node.grow t behind.isEmpty left).map fun fresh =>
        .mk label' none (priority + 1) (.cons lower (.cons fresh .nil)) .none
      | _ =>
        Node.fill t behind.isEmpty left (.mk label' none (priority + 1) (.cons lower .nil) .none)
    else
      match left with
      | [] =>
        if target.isSome then .error (.conflict (node.obstacle used))
        else .ok (.mk label (some t) (priority + 1) children wild)
      | .byte b :: _ => (children.insert t behind b left).map fun children =>
        .mk label target (priority + 1) children wild
      | _ =>
        match wild with
        | .none => Node.fill t behind.isEmpty left (.mk label target (priority + 1) children .none)
        | _ => (wild.insert t behind left).map fun wild =>
          .mk label target (priority + 1) children wild

/-- Adds a route to the child that begins with `b`, or to a new one. A child that has become busier
than the one in front of it changes places with it. -/
def Children.insert (t : Target) (used : Pattern) (b : UInt8) (parts : Pattern) :
    Children → Except Refusal Children
  | .nil => (Node.grow t used.isEmpty parts).map fun fresh => .cons fresh .nil
  | .cons first others =>
    if first.label.head? = some b then
      (first.insert t used parts).map fun first => .cons first others
    else
      (others.insert t used b parts).map fun
        | .cons second others =>
          if first.priority < second.priority then .cons second (.cons first others)
          else .cons first (.cons second others)
        | .nil => .cons first .nil

def Wild.insert (t : Target) (used parts : Pattern) (wild : Wild) : Except Refusal Wild :=
  match wild, parts with
  | .param target, .param _ :: more =>
    if more.isEmpty then
      if target.isSome then .error (.conflict (wild.obstacle used)) else .ok (.param (some t))
    else (Node.grow t false more).map (.paramThen target)
  | .paramThen target next, .param name :: more =>
    if more.isEmpty then
      if target.isSome then .error (.conflict (wild.obstacle used))
      else .ok (.paramThen (some t) next)
    else (next.insert t (used ++ [.param name]) more).map (.paramThen target)
  | wild, _ => .error (.conflict (wild.obstacle used))

end

def Node.add (t : Target) (parts : Pattern) (tree : Node) : Except Refusal Node :=
  if tree.isUnused then tree.bump.fill t true parts else tree.insert t [] parts

end SealedHttp.Routing
