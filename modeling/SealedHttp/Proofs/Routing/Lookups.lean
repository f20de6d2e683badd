import Mathlib.Data.List.TakeWhile
import SealedHttp.Routing.Lookup
import SealedHttp.Proofs.Routing.Trees

/-!
# Looking up paths

Whatever a path leads to in a tree is a route that the path matches. The path of a literal route
leads to that route: parameters are tried only where bytes lead nowhere.
-/

namespace SealedHttp.Routing

namespace Outcome

variable {t : Target} {captured : List Bytes} {rest : Option (Bytes × Bytes)}

theorem unmatched_ne_found {path : Bytes} : unmatched path ≠ found t captured rest := by
  unfold unmatched
  split <;> exact nofun

theorem orElse_eq_found {first second : Outcome}
    (h : first.orElse second = found t captured rest) :
    first = found t captured rest ∨ second = found t captured rest := by
  cases first with
  | found | stopped => exact .inl h
  | missed => exact .inr h

theorem capture_eq_found {value : Bytes} {o : Outcome}
    (h : o.capture value = found t captured rest) :
    ∃ others, captured = value :: others ∧ o = found t others rest := by
  cases o with
  | found =>
    cases h
    exact ⟨_, rfl, rfl⟩
  | missed | stopped => cases h

end Outcome

theorem Node.mem_routes {label : Bytes} {target : Option Target} {priority : Nat}
    {children : Children} {wild : Wild} {q : Pattern} {t : Target} :
    (q, t) ∈ (mk label target priority children wild).routes ↔
      ∃ p, ((p, t) ∈ ending target ∨ (p, t) ∈ children.routes ∨ (p, t) ∈ wild.routes) ∧
        label.map .byte ++ p = q := by
  simp only [routes, mem_below, List.mem_append]

theorem mem_ending {q : Pattern} {t : Target} {target : Option Target} :
    (q, t) ∈ ending target ↔ q = [] ∧ target = some t := by
  cases target <;> simp [ending, eq_comm]

theorem fills_param {value : Bytes} (hvalue : value.dropWhile (· ≠ slash) = []) :
    Pattern.Fills [.param []] [value] none value := by
  have hslash : slash ∉ value := by
    intro hmem
    simpa using List.dropWhile_eq_nil_iff.mp hvalue slash hmem
  simpa using Pattern.Fills.param [] hslash .nil

theorem fills_param_cons {path : Bytes} {q : Pattern} {captured : List Bytes}
    {rest : Option (Bytes × Bytes)} (h : q.Fills captured rest (path.dropWhile (· ≠ slash))) :
    Pattern.Fills (.param [] :: q) (path.takeWhile (· ≠ slash) :: captured) rest path := by
  have hslash : slash ∉ path.takeWhile (· ≠ slash) := by
    intro hmem
    simpa using List.mem_takeWhile_imp hmem
  have hfills := Pattern.Fills.param [] hslash h
  rwa [List.takeWhile_append_dropWhile] at hfills

section Wild

-- Stated by hand: with all of Mathlib in scope the equations of `Wild.find` are not generated.
variable (path : Bytes)

theorem find_param (target : Option Target) :
    (Wild.param target).find path =
      match path.dropWhile (· ≠ slash), target with
      | [], some t => .found t [path] none
      | [], none => .stopped
      | [_], _ => .stopped
      | _, _ => .unmatched path := rfl

theorem find_paramThen (target : Option Target) (next : Node) :
    (Wild.paramThen target next).find path =
      match path.dropWhile (· ≠ slash) with
      | [] =>
        match target with
        | some t => .found t [path] none
        | none => if next.label = [slash] ∧ next.target.isSome then .stopped else .missed
      | rest =>
        if rest = [slash] ∧ next.label ≠ [slash] ∧ target.isSome then .stopped
        else if (path.takeWhile (· ≠ slash)).isEmpty then .unmatched path
        else (next.find rest).capture (path.takeWhile (· ≠ slash)) := rfl

end Wild

/-- A path that is found at a node ends there, or goes on to a child or a parameter. -/
theorem Node.find_cases {label : Bytes} {target : Option Target} {priority : Nat}
    {children : Children} {wild : Wild} {path : Bytes} {t : Target} {captured : List Bytes}
    {rest : Option (Bytes × Bytes)}
    (h : (Node.mk label target priority children wild).find path = .found t captured rest) :
    (path = label ∧ target = some t ∧ captured = [] ∧ rest = none) ∨
      ∃ b left, path = label ++ b :: left ∧
        (children.find b (b :: left) target.isSome = some (.found t captured rest) ∨
          wild.find (b :: left) = .found t captured rest) := by
  unfold Node.find at h
  split at h
  next =>
    split at h
    next hpath =>
      split at h
      next =>
        cases h
        exact .inl ⟨hpath, rfl, rfl, rfl⟩
      next => exact absurd h Outcome.unmatched_ne_found
    next =>
      split at h
      · cases h
      · exact absurd h Outcome.unmatched_ne_found
  next b left hdrop =>
    split at h
    next hfront =>
      obtain ⟨more, rfl⟩ := List.isPrefixOf_iff_prefix.mp hfront
      rw [List.drop_left] at hdrop
      subst hdrop
      refine .inr ⟨b, left, rfl, ?_⟩
      split at h
      next =>
        cases hfind : children.find b (b :: left) target.isSome with
        | none =>
          rw [hfind] at h
          exact absurd h Outcome.unmatched_ne_found
        | some first =>
          rw [hfind] at h
          exact .inl (congrArg some h)
      next =>
        split at h
        next first hfind =>
          rw [hfind]
          exact (Outcome.orElse_eq_found h).imp_left (congrArg some)
        next => exact .inr h
    next => exact absurd h Outcome.unmatched_ne_found

mutual

theorem Node.exists_of_find : ∀ {node : Node} {path : Bytes} {t : Target} {captured : List Bytes}
    {rest : Option (Bytes × Bytes)}, node.find path = .found t captured rest →
      ∃ q, (q, t) ∈ node.routes ∧ q.Fills captured rest path
  | .mk label target priority children wild, path, t, captured, rest, h => by
    have hcases : ∃ p path', path = label ++ path' ∧ p.Fills captured rest path' ∧
        ((p, t) ∈ ending target ∨ (p, t) ∈ children.routes ∨ (p, t) ∈ wild.routes) := by
      rcases Node.find_cases h with ⟨rfl, rfl, rfl, rfl⟩ | ⟨b, left, rfl, hfind | hfind⟩
      · exact ⟨[], [], (List.append_nil _).symm, .nil, .inl (mem_ending.mpr ⟨rfl, rfl⟩)⟩
      · obtain ⟨q, hq, hfills⟩ := Children.exists_of_find hfind
        exact ⟨q, _, rfl, hfills, .inr (.inl hq)⟩
      · obtain ⟨q, hq, hfills⟩ := Wild.exists_of_find hfind
        exact ⟨q, _, rfl, hfills, .inr (.inr hq)⟩
    obtain ⟨p, path', rfl, hfills, hp⟩ := hcases
    exact ⟨_, Node.mem_routes.mpr ⟨p, hp, rfl⟩, hfills.bytes label⟩

theorem Children.exists_of_find : ∀ {children : Children} {b : UInt8} {path : Bytes} {ends : Bool}
    {t : Target} {captured : List Bytes} {rest : Option (Bytes × Bytes)},
    children.find b path ends = some (.found t captured rest) →
      ∃ q, (q, t) ∈ children.routes ∧ q.Fills captured rest path
  | .nil, _, _, _, _, _, _, h => by
    cases h
  | .cons first others, b, path, ends, t, captured, rest, h => by
    rw [Children.find] at h
    split at h
    next =>
      split at h
      · cases h
      · obtain ⟨q, hq, hfills⟩ := Node.exists_of_find (Option.some.inj h)
        exact ⟨q, List.mem_append_left _ hq, hfills⟩
    next =>
      obtain ⟨q, hq, hfills⟩ := Children.exists_of_find h
      exact ⟨q, List.mem_append_right _ hq, hfills⟩

theorem Wild.exists_of_find : ∀ {wild : Wild} {path : Bytes} {t : Target} {captured : List Bytes}
    {rest : Option (Bytes × Bytes)}, wild.find path = .found t captured rest →
      ∃ q, (q, t) ∈ wild.routes ∧ q.Fills captured rest path
  | .none, _, _, _, _, h => absurd h Outcome.unmatched_ne_found
  | .param target, path, t, captured, rest, h => by
    rw [find_param] at h
    cases hdrop : path.dropWhile (· ≠ slash) with
    | nil =>
      rw [hdrop] at h
      cases target with
      | none => cases h
      | some u =>
        cases h
        exact ⟨_, mem_below.mpr ⟨[], mem_ending.mpr ⟨rfl, rfl⟩, rfl⟩, fills_param hdrop⟩
    | cons b left =>
      rw [hdrop] at h
      cases left with
      | nil => cases h
      | cons => exact absurd h Outcome.unmatched_ne_found
  | .paramThen target next, path, t, captured, rest, h => by
    rw [find_paramThen] at h
    split at h
    next hdrop =>
      split at h
      next u =>
        cases h
        refine ⟨_, mem_below.mpr ⟨[], List.mem_append_left _ ?_, rfl⟩, fills_param hdrop⟩
        exact mem_ending.mpr ⟨rfl, rfl⟩
      next => split at h <;> cases h
    next hdrop =>
      split at h
      · cases h
      split at h
      · exact absurd h Outcome.unmatched_ne_found
      · obtain ⟨others, rfl, hfind⟩ := Outcome.capture_eq_found h
        obtain ⟨q, hq, hfills⟩ := Node.exists_of_find hfind
        exact ⟨_, mem_below.mpr ⟨q, List.mem_append_right _ hq, rfl⟩, fills_param_cons hfills⟩
  | .rest name target, path, t, captured, rest, h => by
    cases h
    exact ⟨[.rest name], List.mem_singleton_self _, .rest name path⟩

end

/-! ## Literal routes -/

theorem exists_of_map_byte {label path : Bytes} {p : Pattern}
    (h : label.map .byte ++ p = path.map .byte) :
    ∃ left, path = label ++ left ∧ p = left.map .byte := by
  obtain ⟨front, left, rfl, hfront, hleft⟩ := List.map_eq_append_iff.mp h.symm
  have hinjective : Function.Injective Part.byte := fun _ _ => Part.byte.inj
  rw [List.map_injective_iff.mpr hinjective hfront]
  exact ⟨left, rfl, hleft.symm⟩

mutual

theorem Node.find_of_mem : ∀ {node : Node} {path : Bytes} {t : Target}, node.IsTidy →
    (path.map .byte, t) ∈ node.routes → node.find path = .found t [] none
  | .mk label target priority children wild, path, t, htidy, h => by
    obtain ⟨p, hp, heq⟩ := Node.mem_routes.mp h
    obtain ⟨left, rfl, rfl⟩ := exists_of_map_byte heq
    unfold Node.find
    rw [List.drop_left]
    rcases hp with hp | hp | hp
    · obtain ⟨hnil, rfl⟩ := mem_ending.mp hp
      obtain rfl := List.map_eq_nil_iff.mp hnil
      simp only [List.append_nil, ↓reduceIte]
    · obtain ⟨b, hb, -⟩ := Children.exists_of_mem_routes htidy.1 hp
      cases left with
      | nil => cases hb
      | cons c left =>
        have hfind := Children.find_of_mem htidy.1 hp target.isSome
        have hfront : label.isPrefixOf (label ++ c :: left) = true :=
          List.isPrefixOf_iff_prefix.mpr (List.prefix_append _ _)
        simp only [hfront, hfind, ↓reduceIte]
        split <;> rfl
    · obtain ⟨part, hpart, hbyte⟩ := Wild.exists_of_mem_routes hp
      cases left with
      | nil => cases hpart
      | cons c left => exact absurd (Option.some.inj hpart).symm (hbyte c)

theorem Children.find_of_mem : ∀ {children : Children} {b : UInt8} {left : Bytes} {t : Target},
    children.IsTidy → ((b :: left).map .byte, t) ∈ children.routes →
      ∀ ends, children.find b (b :: left) ends = some (.found t [] none)
  | .nil, _, _, _, _, h, _ => absurd h List.not_mem_nil
  | .cons first others, b, left, t, ⟨hlabel, hfirst, hhead, hothers⟩, h, ends => by
    rw [Children.find]
    rcases List.mem_append.mp h with h | h
    · obtain ⟨p, hp⟩ := Node.exists_of_mem_routes h
      obtain ⟨left', hleft, -⟩ := exists_of_map_byte hp.symm
      obtain ⟨c, label, hc⟩ := List.exists_cons_of_ne_nil hlabel
      rw [hc, List.cons_append, List.cons.injEq] at hleft
      obtain ⟨rfl, rfl⟩ := hleft
      -- a label that leads on to just a slash is that slash
      have hslash : ¬(b :: (label ++ left') = [slash] ∧ first.label ≠ [slash] ∧ ends) := by
        rintro ⟨heq, hne, -⟩
        simp only [List.cons.injEq, List.append_eq_nil_iff] at heq
        exact hne (by rw [hc, heq.1, heq.2.1])
      rw [if_pos (by rw [hc]; rfl), if_neg hslash, Node.find_of_mem hfirst h]
    · obtain ⟨c, hc, hmem⟩ := Children.exists_of_mem_routes hothers h
      cases hc
      rw [if_neg fun hb => by rw [hb] at hhead; exact hhead hmem]
      exact Children.find_of_mem hothers h ends

end

end SealedHttp.Routing
