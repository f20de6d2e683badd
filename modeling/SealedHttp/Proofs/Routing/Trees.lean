import Mathlib.Data.List.Perm.Basic
import SealedHttp.Routing.Tree
import SealedHttp.Proofs.Routing.Patterns

/-!
# The routes of a tree

A tree stands for the routes that can be read off along its branches. Adding a route keeps all of
them and brings in exactly one more, which was not there before. What makes that go through is that
no two children of a node begin alike.
-/

namespace SealedHttp.Routing

/-- The same routes behind a common beginning. -/
def below (front : Pattern) (routes : List (Pattern × Target)) : List (Pattern × Target) :=
  routes.map fun r => (front ++ r.1, r.2)

def ending (target : Option Target) : List (Pattern × Target) := target.toList.map ([], ·)

mutual

/-- The routes without the names of parameters for segments, and where they lead. -/
def Node.routes : Node → List (Pattern × Target)
  | .mk label target _ children wild =>
    below (label.map .byte) (ending target ++ (children.routes ++ wild.routes))

def Children.routes : Children → List (Pattern × Target)
  | .nil => []
  | .cons first others => first.routes ++ others.routes

def Wild.routes : Wild → List (Pattern × Target)
  | .none => []
  | .param target => below [.param []] (ending target)
  | .paramThen target next => below [.param []] (ending target ++ next.routes)
  | .rest name target => [([.rest name], target)]

end

def Children.heads : Children → List (Option UInt8)
  | .nil => []
  | .cons first others => first.label.head? :: others.heads

mutual

/-- Children have labels that begin differently, and what follows a parameter begins with a
slash. -/
def Node.IsTidy : Node → Prop
  | .mk _ _ _ children wild => children.IsTidy ∧ wild.IsTidy

def Children.IsTidy : Children → Prop
  | .nil => True
  | .cons first others =>
    first.label ≠ [] ∧ first.IsTidy ∧ first.label.head? ∉ others.heads ∧ others.IsTidy

def Wild.IsTidy : Wild → Prop
  | .paramThen _ next => next.label.head? = some slash ∧ next.IsTidy
  | _ => True

end

theorem Children.routes_single (node : Node) : (cons node nil).routes = node.routes :=
  List.append_nil _

/-! ## One more route -/

section Below

variable {q front : Pattern} {t : Target} {routes : List (Pattern × Target)}

theorem mem_below : (q, t) ∈ below front routes ↔ ∃ p, (p, t) ∈ routes ∧ front ++ p = q := by
  simp [below]

theorem below_below (front' : Pattern) :
    below front (below front' routes) = below (front ++ front') routes := by
  simp [below, Function.comp_def]

end Below

/-- The routes are those there were and a new one. -/
structure Adds (q : Pattern) (t : Target) (old new : List (Pattern × Target)) : Prop where
  perm : new.Perm ((q, t) :: old)
  fresh : ∀ u, (q, u) ∉ old

namespace Adds

variable {q : Pattern} {t : Target} {old new : List (Pattern × Target)}

theorem single : Adds q t [] [(q, t)] := ⟨.refl _, fun _ => List.not_mem_nil⟩

theorem below (h : Adds q t old new) (front : Pattern) :
    Adds (front ++ q) t (below front old) (below front new) where
  perm := h.perm.map _
  fresh u hmem := by
    obtain ⟨p, hp, heq⟩ := mem_below.mp hmem
    rw [List.append_cancel_left heq] at hp
    exact h.fresh u hp

theorem append_right (h : Adds q t old new) {others : List (Pattern × Target)}
    (hothers : ∀ u, (q, u) ∉ others) : Adds q t (old ++ others) (new ++ others) where
  perm := h.perm.append_right others
  fresh u hmem := (List.mem_append.mp hmem).elim (h.fresh u) (hothers u)

theorem append_left (h : Adds q t old new) {others : List (Pattern × Target)}
    (hothers : ∀ u, (q, u) ∉ others) : Adds q t (others ++ old) (others ++ new) where
  perm := (h.perm.append_left others).trans List.perm_middle
  fresh u hmem := (List.mem_append.mp hmem).elim (hothers u) (h.fresh u)

theorem cons {routes : List (Pattern × Target)} (hfresh : ∀ u, (q, u) ∉ routes) :
    Adds q t routes ((q, t) :: routes) := single.append_right hfresh

theorem concat {routes : List (Pattern × Target)} (hfresh : ∀ u, (q, u) ∉ routes) :
    Adds q t routes (routes ++ [(q, t)]) := by
  have h : Adds q t (routes ++ []) (routes ++ [(q, t)]) := single.append_left hfresh
  rwa [List.append_nil] at h

theorem mem (h : Adds q t old new) : (q, t) ∈ new := h.perm.mem_iff.mpr List.mem_cons_self

theorem mem_of_mem (h : Adds q t old new) {r : Pattern × Target} (hr : r ∈ old) : r ∈ new :=
  h.perm.mem_iff.mpr (List.mem_cons_of_mem _ hr)

end Adds

/-! ## How routes begin -/

theorem eq_nil_of_mem_ending {q : Pattern} {t : Target} {target : Option Target}
    (h : (q, t) ∈ ending target) : q = [] := by
  obtain ⟨_, -, heq⟩ := List.mem_map.mp h
  exact (congrArg Prod.fst heq).symm

theorem Node.exists_of_mem_routes {node : Node} {q : Pattern} {t : Target}
    (h : (q, t) ∈ node.routes) : ∃ p, q = node.label.map .byte ++ p := by
  cases node with
  | mk label =>
    rw [Node.routes] at h
    obtain ⟨p, -, heq⟩ := mem_below.mp h
    exact ⟨p, heq.symm⟩

theorem Node.head?_of_mem_routes {node : Node} {q : Pattern} {t : Target}
    (h : (q, t) ∈ node.routes) (hlabel : node.label ≠ []) :
    q.head? = node.label.head?.map .byte := by
  obtain ⟨p, rfl⟩ := exists_of_mem_routes h
  obtain ⟨b, label, hlabel⟩ := List.exists_cons_of_ne_nil hlabel
  rw [hlabel]
  rfl

theorem Children.exists_of_mem_routes {q : Pattern} {t : Target} :
    ∀ {children : Children}, children.IsTidy → (q, t) ∈ children.routes →
      ∃ b, q.head? = some (.byte b) ∧ some b ∈ children.heads
  | .nil, _, h => absurd h List.not_mem_nil
  | .cons first others, ⟨hlabel, _, _, hothers⟩, h => by
    rw [Children.routes, List.mem_append] at h
    rcases h with h | h
    · obtain ⟨b, label, hb⟩ := List.exists_cons_of_ne_nil hlabel
      have hhead := Node.head?_of_mem_routes h hlabel
      rw [hb] at hhead
      exact ⟨b, hhead, by simp [heads, hb]⟩
    · obtain ⟨b, hhead, hb⟩ := exists_of_mem_routes hothers h
      exact ⟨b, hhead, List.mem_cons_of_mem _ hb⟩

theorem Wild.exists_of_mem_routes {wild : Wild} {q : Pattern} {t : Target}
    (h : (q, t) ∈ wild.routes) : ∃ part, q.head? = some part ∧ ∀ b, part ≠ .byte b := by
  cases wild with
  | none => cases h
  | param | paramThen =>
    obtain ⟨p, -, rfl⟩ := mem_below.mp h
    exact ⟨.param [], rfl, nofun⟩
  | rest name =>
    cases List.mem_singleton.mp h
    exact ⟨.rest name, rfl, nofun⟩

section Beginnings

variable {children : Children} {wild : Wild} {target : Option Target} {q : Pattern} {t : Target}

theorem not_mem_children_of_nil (htidy : children.IsTidy) : ([], t) ∉ children.routes := by
  intro h
  obtain ⟨b, hb, -⟩ := Children.exists_of_mem_routes htidy h
  cases hb

theorem not_mem_children_of_byte {b : UInt8} (htidy : children.IsTidy)
    (hq : q.head? = some (.byte b)) (hb : some b ∉ children.heads) : (q, t) ∉ children.routes := by
  intro h
  obtain ⟨c, hc, hmem⟩ := Children.exists_of_mem_routes htidy h
  cases hq.symm.trans hc
  exact hb hmem

theorem not_mem_wild_of_nil : ([], t) ∉ wild.routes := by
  intro h
  obtain ⟨part, hpart, -⟩ := Wild.exists_of_mem_routes h
  cases hpart

theorem not_mem_wild_of_byte {b : UInt8} (hq : q.head? = some (.byte b)) :
    (q, t) ∉ wild.routes := by
  intro h
  obtain ⟨part, hpart, hne⟩ := Wild.exists_of_mem_routes h
  exact hne b (Option.some.inj (hpart.symm.trans hq))

theorem not_mem_children_of_wild {part : Part} (htidy : children.IsTidy)
    (hq : q.head? = some part) (hpart : ∀ b, part ≠ .byte b) : (q, t) ∉ children.routes := by
  intro h
  obtain ⟨b, hb, -⟩ := Children.exists_of_mem_routes htidy h
  exact hpart b (Option.some.inj (hq.symm.trans hb))

theorem not_mem_ending_of_head {part : Part} (hq : q.head? = some part) :
    (q, t) ∉ ending target := by
  intro h
  rw [eq_nil_of_mem_ending h] at hq
  cases hq

end Beginnings

/-! ## New branches -/

theorem shape_ne_byte {part : Part} (h : ∀ b, part ≠ .byte b) (b : UInt8) :
    part.shape ≠ .byte b := by
  cases part with
  | byte c => exact absurd rfl (h c)
  | param | rest => exact nofun

theorem Pattern.head?_shape_of_byte {parts : Pattern} {b : UInt8}
    (h : parts.head? = some (.byte b)) : parts.shape.head? = some (.byte b) := by
  obtain ⟨ps, rfl⟩ := List.head?_eq_some_iff.mp h
  rfl

theorem Pattern.shape_eq (parts : Pattern) :
    parts.shape = parts.literal.map .byte ++ parts.wild.shape := by
  conv_lhs => rw [← parts.literal_append_wild, Pattern.shape, List.map_append, List.map_map]
  rfl

namespace Node

/-- What becomes of a node that a route is put at. -/
inductive Filled (t : Target) (parts : Pattern) : Node → Node → Prop
  | ends {label : Bytes} {target : Option Target} {priority : Nat} {children : Children}
      {wild : Wild} (hwild : parts.wild = []) :
      Filled t parts (mk label target priority children wild)
        (mk parts.literal (some t) priority children wild)
  | goesOn {label : Bytes} {target : Option Target} {priority : Nat} {children : Children}
      {wild w : Wild} (hw : w.IsTidy) (hroutes : w.routes = [(parts.wild.shape, t)]) :
      Filled t parts (mk label target priority children wild)
        (mk (if parts.literal.isEmpty then label else parts.literal) target priority children w)

theorem literal_label (parts : Pattern) :
    (if parts.literal.isEmpty then [] else parts.literal) = parts.literal := by
  cases parts.literal <;> rfl

theorem Filled.branch {t : Target} {parts : Pattern} {priority : Nat} {node : Node}
    (h : Filled t parts (mk [] none priority .nil .none) node) :
    node.label = parts.literal ∧ node.IsTidy ∧ node.routes = [(parts.shape, t)] := by
  cases h with
  | ends hwild =>
    refine ⟨rfl, ⟨trivial, trivial⟩, ?_⟩
    rw [Pattern.shape_eq, hwild]
    rfl
  | goesOn hw hroutes =>
    rw [literal_label]
    refine ⟨rfl, ⟨trivial, hw⟩, ?_⟩
    rw [routes, hroutes, Pattern.shape_eq parts]
    rfl

theorem filled_of_fill {t : Target} {whole : Bool} {parts : Pattern} {node node' : Node}
    (hparts : parts.IsSegmented) (h : fill t whole parts node = .ok node') :
    Filled t parts node node' := by
  induction hn : parts.length using Nat.strongRecOn generalizing parts whole node node' with
  | ind n ih =>
    obtain ⟨label, target, priority, children, wild⟩ := node
    have hwild : parts.wild.IsSegmented := by
      rw [← parts.literal_append_wild] at hparts
      exact Pattern.isSegmented_of_append hparts
    rw [fill] at h
    split at h
    next hnil =>
      cases h
      exact .ends hnil
    next name more hmore =>
      rw [hmore] at hwild
      split at h
      next hempty =>
        cases h
        refine .goesOn trivial ?_
        rw [hmore, List.isEmpty_iff.mp hempty]
        rfl
      next hsome =>
        obtain ⟨next, hnext, rfl⟩ := exists_of_map_eq_ok h
        have hlt : more.length < n := by
          have hle := parts.length_wild_le
          rw [hmore, List.length_cons] at hle
          omega
        have hbranch := ih more.length hlt hwild.2 hnext rfl
        obtain ⟨hlabel, htidy, hroutes⟩ := hbranch.branch
        refine .goesOn ⟨?_, htidy⟩ ?_
        · -- a route that goes on behind a parameter goes on with a slash
          rcases hwild.1 with rfl | hslash
          · exact absurd rfl hsome
          · obtain ⟨ps, rfl⟩ : ∃ ps, more = .byte slash :: ps := List.head?_eq_some_iff.mp hslash
            rw [hlabel]
            rfl
        · rw [Wild.routes, hroutes, hmore]
          rfl
    next name more hmore =>
      split at h
      · cases h
      next hno =>
        cases h
        have hempty : more = [] := by
          have := (not_or.mp hno).1
          simpa using this
        refine .goesOn trivial ?_
        rw [hmore, hempty]
        rfl
    next hbyte => exact absurd hbyte Pattern.wild_ne_byte

theorem branch_of_grow {t : Target} {whole : Bool} {parts : Pattern} {node : Node}
    (hparts : parts.IsSegmented) (h : grow t whole parts = .ok node) :
    node.label = parts.literal ∧ node.IsTidy ∧ node.routes = [(parts.shape, t)] :=
  (filled_of_fill hparts h).branch

/-! ## Growth -/

/-- Where a route leaves a label. -/
theorem exists_of_shared (label : Bytes) (parts : Pattern) :
    ∃ front lower left, label = front ++ lower ∧ parts = front.map .byte ++ left ∧
      shared label parts = front.length ∧
      ∀ b, lower.head? = some b → left.head? ≠ some (.byte b) := by
  fun_induction shared label parts with
  | case1 bs b ps ih =>
    obtain ⟨front, lower, left, rfl, rfl, hn, hapart⟩ := ih
    exact ⟨b :: front, lower, left, rfl, rfl, congrArg (· + 1) hn, hapart⟩
  | case2 b bs c ps hne =>
    refine ⟨[], b :: bs, .byte c :: ps, rfl, rfl, rfl, ?_⟩
    intro d hd
    cases hd
    simpa using Ne.symm hne
  | case3 label parts hapart =>
    refine ⟨[], label, parts, rfl, rfl, rfl, ?_⟩
    intro b hb hc
    obtain ⟨bs, rfl⟩ := List.head?_eq_some_iff.mp hb
    obtain ⟨ps, rfl⟩ := List.head?_eq_some_iff.mp hc
    exact hapart b bs b ps rfl rfl

/-- A node that has taken in a route. -/
structure Gains (parts : Pattern) (t : Target) (old new : Node) : Prop where
  tidy : new.IsTidy
  adds : Adds parts.shape t old.routes new.routes
  head : ∀ b, old.label.head? = some b → parts.head? = some (.byte b) → new.label.head? = some b

theorem routes_divide (front lower : Bytes) (target : Option Target) (priority : Nat)
    (children : Children) (wild : Wild) :
    (mk (front ++ lower) target priority children wild).routes =
      below (front.map .byte) (mk lower target priority children wild).routes := by
  rw [routes, routes, below_below, List.map_append]

theorem exists_of_fill_wild {t : Target} {whole : Bool} {parts : Pattern}
    (hparts : parts.IsSegmented) {part : Part} (hhead : parts.head? = some part)
    (hpart : ∀ b, part ≠ .byte b) {label : Bytes} {target : Option Target} {priority : Nat}
    {children : Children} {wild : Wild} {node : Node}
    (h : fill t whole parts (mk label target priority children wild) = .ok node) :
    ∃ w, w.IsTidy ∧ w.routes = [(parts.shape, t)] ∧ node = mk label target priority children w := by
  obtain ⟨ps, rfl⟩ := List.head?_eq_some_iff.mp hhead
  cases part with
  | byte b => exact absurd rfl (hpart b)
  | param | rest =>
    cases filled_of_fill hparts h with
    | ends hwild => cases hwild
    | goesOn hw hroutes => exact ⟨_, hw, hroutes, rfl⟩

theorem gains_of_inner {t : Target} {front lower : Bytes} {left : Pattern} {old : Node}
    {inner : List (Pattern × Target)} (hlabel : old.label = front ++ lower)
    (hroutes : old.routes = below (front.map .byte) inner)
    (hapart : ∀ b, lower.head? = some b → left.head? ≠ some (.byte b)) {target : Option Target}
    {priority : Nat} {children : Children} {wild : Wild} (hchildren : children.IsTidy)
    (hwild : wild.IsTidy)
    (hadds : Adds left.shape t inner (ending target ++ (children.routes ++ wild.routes))) :
    Gains (front.map .byte ++ left) t old (mk front target priority children wild) where
  tidy := ⟨hchildren, hwild⟩
  adds := by
    have hshape : Pattern.shape (front.map .byte ++ left) = front.map .byte ++ left.shape := by
      rw [Pattern.shape, List.map_append, List.map_map]
      rfl
    rw [hroutes, hshape]
    exact hadds.below _
  head b hb hparts := by
    rw [hlabel] at hb
    cases front with
    | nil => exact absurd hparts (hapart b hb)
    | cons c front => exact hb

theorem gains_of_kept {t : Target} {front : Bytes} {left : Pattern} {target target' : Option Target}
    {priority priority' : Nat} {children children' : Children} {wild wild' : Wild}
    (hchildren : children'.IsTidy) (hwild : wild'.IsTidy)
    (hadds : Adds left.shape t (ending target ++ (children.routes ++ wild.routes))
      (ending target' ++ (children'.routes ++ wild'.routes))) :
    Gains (front.map .byte ++ left) t (mk front target priority children wild)
      (mk front target' priority' children' wild') := by
  have hlabel : (mk front target priority children wild).label = front ++ [] :=
    (List.append_nil front).symm
  apply gains_of_inner hlabel rfl _ hchildren hwild hadds
  intro b hb
  cases hb

section Insertion

variable {t : Target} {used : Pattern} {front lower : Bytes} {left : Pattern}
  {target : Option Target} {priority : Nat} {children : Children} {wild : Wild} {node : Node}

/-- A route that leaves a label within it divides the node. -/
theorem gains_of_divided (hn : shared (front ++ lower) (front.map .byte ++ left) = front.length)
    (hlower : lower ≠ []) (hleft : left.IsSegmented)
    (hapart : ∀ b, lower.head? = some b → left.head? ≠ some (.byte b))
    (htidy : (mk lower target priority children wild).IsTidy)
    (h : (mk (front ++ lower) target priority children wild).insert t used
      (front.map .byte ++ left) = .ok node) :
    Gains (front.map .byte ++ left) t (mk (front ++ lower) target priority children wild) node := by
  have hroutes := routes_divide front lower target priority children wild
  have hlt : front.length < (front ++ lower).length := by
    simpa using List.length_pos_of_ne_nil hlower
  have hdrop : (front.map Part.byte ++ left).drop front.length = left := by simp
  simp only [insert, hn, hlt, hdrop, List.take_left, List.drop_left, ↓reduceIte] at h
  generalize hold : mk lower target priority children wild = old at h htidy hroutes
  have hlabel : old.label = lower := by rw [← hold]; rfl
  have hchildren : (Children.cons old .nil).IsTidy :=
    ⟨by rwa [hlabel], htidy, List.not_mem_nil, trivial⟩
  rw [← Children.routes_single old] at hroutes
  match left with
  | [] =>
    cases h
    refine gains_of_inner rfl hroutes hapart hchildren trivial ?_
    rw [Wild.routes, List.append_nil]
    exact Adds.cons fun u => not_mem_children_of_nil hchildren
  | .byte b :: ps =>
    obtain ⟨fresh, hfresh, rfl⟩ := exists_of_map_eq_ok h
    obtain ⟨hlabel', htidy', hroutes'⟩ := branch_of_grow hleft hfresh
    have hhead : some b ∉ (Children.cons old .nil).heads := by
      intro hb
      have hb : some b = old.label.head? := List.mem_singleton.mp hb
      rw [hlabel] at hb
      exact hapart b hb.symm rfl
    refine gains_of_inner rfl hroutes hapart ⟨hchildren.1, htidy, ?_, ?_⟩ trivial ?_
    · intro hb
      have hb : old.label.head? = fresh.label.head? := List.mem_singleton.mp hb
      rw [hlabel'] at hb
      exact hhead (List.mem_singleton.mpr hb.symm)
    · exact ⟨by rw [hlabel']; exact nofun, htidy', List.not_mem_nil, trivial⟩
    · have hnew : (Children.cons old (.cons fresh .nil)).routes =
          (Children.cons old .nil).routes ++ [(Pattern.shape (.byte b :: ps), t)] := by
        simp only [Children.routes, hroutes', List.append_nil]
      rw [hnew, Wild.routes, List.append_nil]
      exact Adds.concat fun u => not_mem_children_of_byte hchildren rfl hhead
  | .param name :: ps | .rest name :: ps =>
    obtain ⟨w, hw, hroutes', rfl⟩ := exists_of_fill_wild hleft rfl nofun h
    refine gains_of_inner rfl hroutes hapart hchildren hw ?_
    rw [hroutes']
    exact Adds.concat fun u => not_mem_children_of_wild hchildren rfl nofun

end Insertion

end Node

/-- Children among which a route has been put that begins with `b`. -/
structure Children.Gain (b : UInt8) (parts : Pattern) (t : Target) (old new : Children) : Prop where
  tidy : new.IsTidy
  adds : Adds parts.shape t old.routes new.routes
  heads : ∀ head ∈ new.heads, head = some b ∨ head ∈ old.heads

/-- Changing places keeps a gain. -/
theorem Children.Gain.swap {b : UInt8} {parts : Pattern} {t : Target} {old others : Children}
    {first second : Node} (h : Gain b parts t old (.cons first (.cons second others))) :
    Gain b parts t old (.cons second (.cons first others)) where
  tidy := by
    obtain ⟨hfirst, htidy, hapart, hsecond, htidy', hapart', hothers⟩ := h.tidy
    obtain ⟨hne, hnotMem⟩ := not_or.mp (mt List.mem_cons.mpr hapart)
    refine ⟨hsecond, htidy', ?_, hfirst, htidy, hnotMem, hothers⟩
    exact fun hmem => (List.mem_cons.mp hmem).elim (Ne.symm hne) hapart'
  adds := by
    refine ⟨.trans ?_ h.adds.perm, h.adds.fresh⟩
    simp only [routes, ← List.append_assoc]
    exact List.perm_append_comm.append_right _
  heads head hmem := h.heads head ((List.Perm.swap _ _ _).mem_iff.mp hmem)

mutual

theorem Node.gains_of_insert {t : Target} {used parts : Pattern} (hparts : parts.IsSegmented) :
    ∀ {node node' : Node}, node.IsTidy → node.insert t used parts = .ok node' →
      Node.Gains parts t node node'
  | .mk label target priority children wild, node', htidy, h => by
    obtain ⟨front, lower, left, rfl, rfl, hn, hapart⟩ := Node.exists_of_shared label parts
    have hleft := Pattern.isSegmented_of_append hparts
    by_cases hlower : lower ≠ []
    · exact Node.gains_of_divided hn hlower hleft hapart htidy h
    obtain rfl := not_not.mp hlower
    have hdrop : (front.map Part.byte ++ left).drop front.length = left := by simp
    rw [List.append_nil] at h hn htidy ⊢
    simp only [Node.insert, hn, hdrop, Nat.lt_irrefl, ↓reduceIte] at h
    split at h
    next =>
      split at h
      · cases h
      next hnone =>
        cases h
        obtain rfl := Option.not_isSome_iff_eq_none.mp hnone
        apply Node.gains_of_kept htidy.1 htidy.2
        change Adds [] t (children.routes ++ wild.routes) (([], t) :: _)
        apply Adds.cons
        intro u hu
        exact (List.mem_append.mp hu).elim (not_mem_children_of_nil htidy.1) not_mem_wild_of_nil
    next b ps =>
      obtain ⟨children', hchildren, rfl⟩ := exists_of_map_eq_ok h
      have hgain := Children.gain_of_insert hleft rfl htidy.1 hchildren
      apply Node.gains_of_kept hgain.tidy htidy.2
      apply Adds.append_left _ fun u => not_mem_ending_of_head rfl
      exact hgain.adds.append_right fun u => not_mem_wild_of_byte rfl
    next hnil hbyte =>
      obtain ⟨part, ps, rfl⟩ := List.exists_cons_of_ne_nil hnil
      have hpart : ∀ b, part ≠ .byte b := fun b hb => hbyte b ps (congrArg (· :: ps) hb)
      have hnew : ∃ w, w.IsTidy ∧ Adds (Pattern.shape (part :: ps)) t wild.routes w.routes ∧
          node' = .mk front target (priority + 1) children w := by
        cases wild with
        | none =>
          obtain ⟨w, hw, hroutes, rfl⟩ := Node.exists_of_fill_wild hleft rfl hpart h
          exact ⟨w, hw, by rw [hroutes]; exact .single, rfl⟩
        | param | paramThen | rest =>
          obtain ⟨w, hinsert, rfl⟩ := exists_of_map_eq_ok h
          obtain ⟨hw, hadds⟩ := Wild.adds_of_insert hleft htidy.2 hinsert
          exact ⟨w, hw, hadds, rfl⟩
      obtain ⟨w, hw, hadds, rfl⟩ := hnew
      apply Node.gains_of_kept htidy.1 hw
      apply Adds.append_left _ fun u => not_mem_ending_of_head rfl
      exact hadds.append_left fun u => not_mem_children_of_wild htidy.1 rfl (shape_ne_byte hpart)

theorem Children.gain_of_insert {t : Target} {used parts : Pattern} (hparts : parts.IsSegmented)
    {b : UInt8} (hb : parts.head? = some (.byte b)) :
    ∀ {children children' : Children}, children.IsTidy →
      children.insert t used b parts = .ok children' → Children.Gain b parts t children children'
  | .nil, children', _, h => by
    rw [Children.insert] at h
    obtain ⟨fresh, hfresh, rfl⟩ := exists_of_map_eq_ok h
    obtain ⟨hlabel, htidy, hroutes⟩ := Node.branch_of_grow hparts hfresh
    obtain ⟨ps, rfl⟩ := List.head?_eq_some_iff.mp hb
    refine ⟨⟨by rw [hlabel]; exact nofun, htidy, List.not_mem_nil, trivial⟩, ?_, ?_⟩
    · rw [Children.routes_single, hroutes]
      exact .single
    · intro head hmem
      rw [List.mem_singleton.mp hmem, hlabel]
      exact .inl rfl
  | .cons first others, children', ⟨hlabel, hfirst, hhead, hothers⟩, h => by
    rw [Children.insert] at h
    split at h
    next hlabel' =>
      obtain ⟨first', hinsert, rfl⟩ := exists_of_map_eq_ok h
      have hgains := Node.gains_of_insert hparts hfirst hinsert
      have hhead' := hgains.head b hlabel' hb
      rw [hlabel'] at hhead
      refine ⟨⟨?_, hgains.tidy, by rwa [hhead'], hothers⟩, ?_, ?_⟩
      · intro hnil
        rw [hnil] at hhead'
        cases hhead'
      · apply hgains.adds.append_right
        exact fun u => not_mem_children_of_byte hothers (Pattern.head?_shape_of_byte hb) hhead
      · intro head hmem
        rcases List.mem_cons.mp hmem with rfl | hmem
        · exact .inl hhead'
        · exact .inr (List.mem_cons_of_mem _ hmem)
    next hlabel' =>
      obtain ⟨others', hinsert, hplace⟩ := exists_of_map_eq_ok h
      have hgain := Children.gain_of_insert hparts hb hothers hinsert
      have hcons : Children.Gain b parts t (.cons first others) (.cons first others') := by
        refine ⟨⟨hlabel, hfirst, ?_, hgain.tidy⟩, ?_, ?_⟩
        · intro hmem
          exact (hgain.heads _ hmem).elim hlabel' hhead
        · apply hgain.adds.append_left
          intro u hu
          have hfirst' := Node.head?_of_mem_routes hu hlabel
          rw [Pattern.head?_shape_of_byte hb] at hfirst'
          obtain ⟨c, hc, hcb⟩ := Option.map_eq_some_iff.mp hfirst'.symm
          cases hcb
          exact hlabel' hc
        · intro head hmem
          rcases List.mem_cons.mp hmem with rfl | hmem
          · exact .inr List.mem_cons_self
          · exact (hgain.heads head hmem).imp_right (List.mem_cons_of_mem _)
      cases others' with
      | nil =>
        cases hplace
        exact hcons
      | cons second others' =>
        dsimp only at hplace
        split at hplace <;> cases hplace
        · exact hcons.swap
        · exact hcons

theorem Wild.adds_of_insert {t : Target} {used parts : Pattern} (hparts : parts.IsSegmented) :
    ∀ {wild wild' : Wild}, wild.IsTidy → wild.insert t used parts = .ok wild' →
      wild'.IsTidy ∧ Adds parts.shape t wild.routes wild'.routes
  | .none, wild', _, h => by
    cases h
  | .param target, wild', _, h => by
    cases parts with
    | nil => cases h
    | cons part more =>
      cases part with
      | byte | rest => cases h
      | param name =>
        rw [Wild.insert] at h
        split at h
        next hempty =>
          obtain rfl := List.isEmpty_iff.mp hempty
          split at h
          · cases h
          next hnone =>
            cases h
            obtain rfl := Option.not_isSome_iff_eq_none.mp hnone
            exact ⟨trivial, Adds.single.below [.param []]⟩
        next hsome =>
          obtain ⟨next, hnext, rfl⟩ := exists_of_map_eq_ok h
          obtain ⟨hlabel, htidy, hroutes⟩ := Node.branch_of_grow hparts.2 hnext
          have hslash := hparts.1.resolve_left fun hnil => hsome (List.isEmpty_iff.mpr hnil)
          obtain ⟨ps, rfl⟩ := List.head?_eq_some_iff.mp hslash
          refine ⟨⟨by rw [hlabel]; rfl, htidy⟩, ?_⟩
          rw [Wild.routes, Wild.routes, hroutes]
          exact (Adds.concat fun u => not_mem_ending_of_head rfl).below [.param []]
  | .paramThen target next, wild', htidy, h => by
    cases parts with
    | nil => cases h
    | cons part more =>
      cases part with
      | byte | rest => cases h
      | param name =>
        rw [Wild.insert] at h
        split at h
        next hempty =>
          obtain rfl := List.isEmpty_iff.mp hempty
          split at h
          · cases h
          next hnone =>
            cases h
            obtain rfl := Option.not_isSome_iff_eq_none.mp hnone
            have hfresh (u : Target) : ([], u) ∉ next.routes := by
              intro hu
              obtain ⟨p, hp⟩ := Node.exists_of_mem_routes hu
              obtain ⟨bs, hbs⟩ := List.head?_eq_some_iff.mp htidy.1
              rw [hbs] at hp
              cases hp
            exact ⟨htidy, (Adds.cons hfresh).below [.param []]⟩
        next hsome =>
          obtain ⟨next', hnext, rfl⟩ := exists_of_map_eq_ok h
          have hgains := Node.gains_of_insert hparts.2 htidy.2 hnext
          have hslash := hparts.1.resolve_left fun hnil => hsome (List.isEmpty_iff.mpr hnil)
          refine ⟨⟨hgains.head slash htidy.1 hslash, hgains.tidy⟩, ?_⟩
          apply Adds.below _ [.param []]
          apply hgains.adds.append_left
          exact fun u => not_mem_ending_of_head (Pattern.head?_shape_of_byte hslash)
  | .rest name target, wild', _, h => by
    cases h

end

end SealedHttp.Routing
