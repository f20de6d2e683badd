import Mathlib.Data.List.Nodup
import Mathlib.Data.List.Permutation
import SealedHttp.Routing.Table
import SealedHttp.Proofs.ByteStrings
import SealedHttp.Proofs.Routing.Lookups

/-!
# What a path resolves to

A path resolves to a route that was inserted, with what it was inserted for, and putting the
captures into the route gives back the path. A path for which there is nothing is none of the
literal routes.

The empty route is an exception. A tree that holds nothing else counts as unused, so the insertion
that comes next drives it out, or moves it to where its own literal part ends.
-/

namespace SealedHttp

namespace Routing

theorem Node.exists_of_isUnused {node : Node} (h : node.isUnused = true) :
    ∃ target priority, node = .mk [] target priority .nil .none := by
  unfold isUnused at h
  split at h
  · exact ⟨_, _, rfl⟩
  · cases h

theorem Node.eq_nil_of_isUnused {node : Node} (h : node.isUnused = true) {q : Pattern} {t : Target}
    (hq : (q, t) ∈ node.routes) : q = [] := by
  obtain ⟨target, priority, rfl⟩ := exists_of_isUnused h
  obtain ⟨p, hp, rfl⟩ := Node.mem_routes.mp hq
  rcases hp with hp | hp | hp
  · exact (mem_ending.mp hp).1
  · cases hp
  · cases hp

/-- The first route of a tree that counts as unused. -/
structure Opens (parts : Pattern) (t : Target) (old new : Node) : Prop where
  tidy : new.IsTidy
  nodup : (new.routes.map Prod.fst).Nodup
  mem : (parts.shape, t) ∈ new.routes
  old : ∀ q u, (q, u) ∈ new.routes → (q, u) = (parts.shape, t) ∨ ∃ p, (p, u) ∈ old.routes
  isUnused : new.isUnused = true ↔ parts = []

section Opening

variable {parts : Pattern} {t : Target} {target : Option Target} {priority priority' : Nat}

theorem opens_of_ends (hwild : parts.wild = []) :
    Opens parts t (.mk [] target priority .nil .none)
      (.mk parts.literal (some t) priority' .nil .none) := by
  have hshape : parts.literal.map .byte = parts.shape := by
    rw [Pattern.shape_eq parts, hwild]
    exact (List.append_nil _).symm
  have hroutes : (Node.mk parts.literal (some t) priority' .nil .none).routes =
      [(parts.shape, t)] := by
    rw [← hshape]
    simp [Node.routes, ending, below, Children.routes, Wild.routes]
  refine ⟨⟨trivial, trivial⟩, ?_, ?_, ?_, ?_⟩
  · rw [hroutes]
    exact List.nodup_singleton _
  · rw [hroutes]
    exact List.mem_singleton_self _
  · intro q u hmem
    rw [hroutes] at hmem
    exact .inl (List.mem_singleton.mp hmem)
  · constructor
    · intro h
      obtain ⟨_, _, heq⟩ := Node.exists_of_isUnused h
      have hliteral : parts.literal = [] := by injection heq
      rw [← parts.literal_append_wild, hwild, hliteral]
      rfl
    · rintro rfl
      rfl

/-- An empty route stays, but at the end of the literal part. -/
theorem opens_of_goesOn {w : Wild} (hw : w.IsTidy) (hroutes : w.routes = [(parts.wild.shape, t)]) :
    Opens parts t (.mk [] target priority .nil .none)
      (.mk parts.literal target priority' .nil w) := by
  have hmem : (parts.wild.shape, t) ∈ w.routes := by
    rw [hroutes]
    exact List.mem_singleton_self _
  have hshape : parts.wild.shape ≠ [] := by
    intro hnil
    obtain ⟨part, hpart, -⟩ := Wild.exists_of_mem_routes hmem
    rw [hnil] at hpart
    cases hpart
  refine ⟨⟨trivial, hw⟩, ?_, ?_, ?_, ?_⟩
  · simp only [Node.routes, Children.routes, hroutes]
    cases target with
    | none => exact List.nodup_singleton _
    | some u =>
      refine List.nodup_cons.mpr ⟨?_, List.nodup_singleton _⟩
      intro h
      exact hshape (List.append_cancel_left (List.mem_singleton.mp h)).symm
  · exact Node.mem_routes.mpr ⟨_, .inr (.inr hmem), (Pattern.shape_eq parts).symm⟩
  · intro q u hq
    obtain ⟨p, hp, rfl⟩ := Node.mem_routes.mp hq
    rcases hp with hp | hp | hp
    · exact .inr ⟨p, Node.mem_routes.mpr ⟨p, .inl hp, rfl⟩⟩
    · cases hp
    · rw [hroutes] at hp
      cases List.mem_singleton.mp hp
      exact .inl (congrArg (·, t) (Pattern.shape_eq parts).symm)
  · constructor
    · intro h
      obtain ⟨_, _, heq⟩ := Node.exists_of_isUnused h
      have hnone : w = .none := by injection heq
      rw [hnone] at hmem
      cases hmem
    · rintro rfl
      exact absurd rfl hshape

theorem opens_of_filled {tree tree' : Node} (hunused : tree.isUnused = true)
    (h : Node.Filled t parts tree.bump tree') : Opens parts t tree tree' := by
  obtain ⟨target, priority, rfl⟩ := Node.exists_of_isUnused hunused
  cases h with
  | ends hwild => exact opens_of_ends hwild
  | goesOn hw hroutes =>
    rw [Node.literal_label]
    exact opens_of_goesOn hw hroutes

end Opening

end Routing

namespace Routes

open Routing

variable {τ : Type}

def insertAll (inserted : List (String × τ)) : Except RoutingError (Routes τ) :=
  inserted.foldlM (fun r entry => r.insert entry.1 entry.2) empty

/-- An empty route that nothing but empty routes came before, with a further route behind it. -/
def IsDisplaced (inserted : List (String × τ)) (i : Nat) : Prop :=
  i + 1 < inserted.length ∧ ∀ entry ∈ inserted.take (i + 1), entry.1 = ""

/-- Right answers of a table with these routes, displaced ones apart. -/
def IsAnswer (inserted : List (String × τ)) (path : String) :
    Except RoutingError (Resolved τ) → Prop
  | .ok found => ∃ i parts, inserted[i]? = some (found.pattern, found.served) ∧
      parse (Bytes.ofText found.pattern) = .ok parts ∧ parts.text = Bytes.ofText found.pattern ∧
      (parts.Matches found.params (Bytes.ofText path) ∨ IsDisplaced inserted i)
  | .error e => e = .unmapped path ∧ ∀ i served parts, inserted[i]? = some (path, served) →
      parse (Bytes.ofText path) = .ok parts → parts.IsLiteral → IsDisplaced inserted i

/-- A tree holds the routes that were inserted. -/
structure IsChart (inserted : List (String × τ)) (tree : Node) : Prop where
  tidy : tree.IsTidy
  nodup : (tree.routes.map Prod.fst).Nodup
  leads : ∀ q t, (q, t) ∈ tree.routes → ∃ entry parts, inserted[t.index]? = some entry ∧
    parse (Bytes.ofText entry.1) = .ok parts ∧ t.names = parts.names ∧
    (q = parts.shape ∨ IsDisplaced inserted t.index)
  holds : ∀ i entry, inserted[i]? = some entry → ∃ parts,
    parse (Bytes.ofText entry.1) = .ok parts ∧
    ((parts.shape, ⟨i, parts.names⟩) ∈ tree.routes ∨ IsDisplaced inserted i)
  isUnused : tree.isUnused = true ↔ ∀ entry ∈ inserted, entry.1 = ""
  proper : tree.isUnused = false → ∃ q t, (q, t) ∈ tree.routes ∧ q ≠ []

variable {inserted : List (String × τ)} {tree tree' : Node} {path : String} {served : τ}
  {parts : Pattern}

theorem parts_eq_nil_iff (hparse : parse (Bytes.ofText path) = .ok parts) :
    parts = [] ↔ path = "" := by
  rw [← Bytes.ofText_eq_nil_iff]
  constructor
  · rintro rfl
    exact (text_of_parseFrom hparse).symm
  · intro hpath
    rw [hpath, parse, parseFrom] at hparse
    exact (Except.ok.inj hparse).symm

theorem IsDisplaced.concat {i : Nat} (h : IsDisplaced inserted i) (entry : String × τ) :
    IsDisplaced (inserted ++ [entry]) i := by
  refine ⟨?_, ?_⟩
  · rw [List.length_append]
    exact h.1.trans (Nat.lt_succ_self _)
  · rw [List.take_append_of_le_length h.1.le]
    exact h.2

theorem isDisplaced_concat_of_blank (h : ∀ entry ∈ inserted, entry.1 = "") {i : Nat}
    (hi : i < inserted.length) (entry : String × τ) : IsDisplaced (inserted ++ [entry]) i := by
  refine ⟨?_, ?_⟩
  · rw [List.length_append, List.length_singleton]
    exact Nat.succ_lt_succ hi
  · rw [List.take_append_of_le_length hi]
    exact fun entry' hmem => h entry' (List.mem_of_mem_take hmem)

theorem getElem?_concat_of_some {i : Nat} {entry : String × τ} (h : inserted[i]? = some entry)
    (last : String × τ) : (inserted ++ [last])[i]? = some entry := by
  rw [List.getElem?_append_left (List.getElem?_eq_some_iff.mp h).1, h]

theorem getElem?_concat_cases {i : Nat} {entry last : String × τ}
    (h : (inserted ++ [last])[i]? = some entry) :
    inserted[i]? = some entry ∨ i = inserted.length ∧ entry = last := by
  rcases Nat.lt_trichotomy i inserted.length with hi | rfl | hi
  · rw [List.getElem?_append_left hi] at h
    exact .inl h
  · rw [List.getElem?_concat_length] at h
    exact .inr ⟨rfl, (Option.some.inj h).symm⟩
  · rw [List.getElem?_eq_none (by rw [List.length_append]; exact hi)] at h
    cases h

namespace IsChart

theorem empty : IsChart ([] : List (String × τ)) Node.blank where
  tidy := ⟨trivial, trivial⟩
  nodup := List.nodup_nil
  leads := nofun
  holds := nofun
  isUnused := by simp [Node.blank, Node.isUnused]
  proper := nofun

/-- The routes of a tree that is in use stay where they are. -/
theorem concat_of_gains (h : IsChart inserted tree) (hunused : tree.isUnused = false)
    (hparse : parse (Bytes.ofText path) = .ok parts)
    (hgains : Node.Gains parts ⟨inserted.length, parts.names⟩ tree tree') :
    IsChart (inserted ++ [(path, served)]) tree' where
  tidy := hgains.tidy
  nodup := by
    rw [(hgains.adds.perm.map Prod.fst).nodup_iff, List.map_cons, List.nodup_cons]
    refine ⟨?_, h.nodup⟩
    intro hmem
    obtain ⟨⟨q, u⟩, hu, rfl⟩ := List.mem_map.mp hmem
    exact hgains.adds.fresh u hu
  leads q t hmem := by
    rcases List.mem_cons.mp (hgains.adds.perm.mem_iff.mp hmem) with heq | hold
    · cases heq
      exact ⟨_, parts, List.getElem?_concat_length, hparse, rfl, .inl rfl⟩
    · obtain ⟨entry, ps, hentry, hps, hnames, hq⟩ := h.leads q t hold
      refine ⟨entry, ps, getElem?_concat_of_some hentry _, hps, hnames, ?_⟩
      exact hq.imp_right (·.concat _)
  holds i entry hi := by
    rcases getElem?_concat_cases hi with hi | ⟨rfl, rfl⟩
    · obtain ⟨ps, hps, hheld⟩ := h.holds i entry hi
      exact ⟨ps, hps, hheld.imp hgains.adds.mem_of_mem (·.concat _)⟩
    · exact ⟨parts, hparse, .inl hgains.adds.mem⟩
  isUnused := by
    obtain ⟨q, t, hmem, hne⟩ := h.proper hunused
    constructor
    · intro hunused'
      exact absurd (Node.eq_nil_of_isUnused hunused' (hgains.adds.mem_of_mem hmem)) hne
    · intro hblank
      have htrue := h.isUnused.mpr fun entry hentry => hblank entry (List.mem_append_left _ hentry)
      rw [hunused] at htrue
      cases htrue
  proper _ := by
    obtain ⟨q, t, hmem, hne⟩ := h.proper hunused
    exact ⟨q, t, hgains.adds.mem_of_mem hmem, hne⟩

/-- The routes of a tree that counts as unused are all driven out. -/
theorem concat_of_opens (h : IsChart inserted tree) (hunused : tree.isUnused = true)
    (hparse : parse (Bytes.ofText path) = .ok parts)
    (hopens : Opens parts ⟨inserted.length, parts.names⟩ tree tree') :
    IsChart (inserted ++ [(path, served)]) tree' where
  tidy := hopens.tidy
  nodup := hopens.nodup
  leads q t hmem := by
    rcases hopens.old q t hmem with heq | ⟨p, hp⟩
    · cases heq
      exact ⟨_, parts, List.getElem?_concat_length, hparse, rfl, .inl rfl⟩
    · obtain ⟨entry, ps, hentry, hps, hnames, -⟩ := h.leads p t hp
      have hlt := (List.getElem?_eq_some_iff.mp hentry).1
      refine ⟨entry, ps, getElem?_concat_of_some hentry _, hps, hnames, .inr ?_⟩
      exact isDisplaced_concat_of_blank (h.isUnused.mp hunused) hlt _
  holds i entry hi := by
    rcases getElem?_concat_cases hi with hi | ⟨rfl, rfl⟩
    · obtain ⟨ps, hps, -⟩ := h.holds i entry hi
      have hlt := (List.getElem?_eq_some_iff.mp hi).1
      exact ⟨ps, hps, .inr (isDisplaced_concat_of_blank (h.isUnused.mp hunused) hlt _)⟩
    · exact ⟨parts, hparse, .inl hopens.mem⟩
  isUnused := by
    rw [hopens.isUnused, parts_eq_nil_iff hparse, List.forall_mem_append, List.forall_mem_singleton]
    exact (and_iff_right (h.isUnused.mp hunused)).symm
  proper hused := by
    refine ⟨_, _, hopens.mem, ?_⟩
    intro hnil
    have htrue := hopens.isUnused.mpr (List.map_eq_nil_iff.mp hnil)
    rw [hused] at htrue
    cases htrue

theorem insert (h : IsChart inserted tree) (hparse : parse (Bytes.ofText path) = .ok parts)
    (hadd : tree.add ⟨inserted.length, parts.names⟩ parts = .ok tree') :
    IsChart (inserted ++ [(path, served)]) tree' := by
  have hparts := isSegmented_of_parseFrom hparse
  unfold Node.add at hadd
  split at hadd
  next hunused =>
    exact h.concat_of_opens hunused hparse
      (opens_of_filled hunused (Node.filled_of_fill hparts hadd))
  next hused =>
    exact h.concat_of_gains (Bool.eq_false_of_not_eq_true hused) hparse
      (Node.gains_of_insert hparts h.tidy hadd)

end IsChart

theorem exists_of_insert {r r' : Routes τ} (h : r.insert path served = .ok r') :
    ∃ parts tree, parse (Bytes.ofText path) = .ok parts ∧
      r.tree.add ⟨r.entries.length, parts.names⟩ parts = .ok tree ∧
      r' = ⟨tree, r.entries ++ [(path, served)]⟩ := by
  unfold insert at h
  split at h
  · cases h
  next parts hparse =>
    split at h
    · cases h
    next tree hadd =>
      cases h
      exact ⟨parts, tree, hparse, hadd, rfl⟩

theorem isChart_of_insertAll {r : Routes τ} (h : insertAll inserted = .ok r) :
    r.entries = inserted ∧ IsChart inserted r.tree := by
  induction inserted using List.reverseRecOn generalizing r with
  | nil =>
    cases h
    exact ⟨rfl, .empty⟩
  | append_singleton inserted entry ih =>
    rw [insertAll, List.foldlM_append] at h
    obtain ⟨before, hbefore, hlast⟩ := exists_of_bind_eq_ok h
    obtain ⟨hentries, hchart⟩ := ih hbefore
    have hinsert : before.insert entry.1 entry.2 = .ok r := by
      rw [List.foldlM_cons] at hlast
      obtain ⟨after, hafter, hr⟩ := exists_of_bind_eq_ok hlast
      cases hr
      exact hafter
    obtain ⟨parts, tree, hparse, hadd, rfl⟩ := exists_of_insert hinsert
    rw [hentries] at hadd ⊢
    exact ⟨rfl, hchart.insert hparse hadd⟩

theorem map_byte_of_isLiteral {ps : Pattern} (h : ps.IsLiteral) : ps = ps.text.map .byte := by
  induction ps with
  | nil => rfl
  | cons part ps ih =>
    obtain ⟨b, rfl⟩ := h part List.mem_cons_self
    rw [Pattern.text, List.map_cons, ← ih fun part hmem => h part (List.mem_cons_of_mem _ hmem)]

namespace IsChart

theorem find_of_literal (h : IsChart inserted tree) {i : Nat} {entry : String × τ}
    (hi : inserted[i]? = some entry) (hparse : parse (Bytes.ofText entry.1) = .ok parts)
    (hliteral : parts.IsLiteral) (hplaced : ¬IsDisplaced inserted i) :
    tree.find (Bytes.ofText entry.1) = .found ⟨i, parts.names⟩ [] none := by
  obtain ⟨ps, hps, hheld⟩ := h.holds i entry hi
  cases hps.symm.trans hparse
  apply Node.find_of_mem h.tidy
  have hshape : parts.shape = (Bytes.ofText entry.1).map .byte := by
    conv_lhs => rw [map_byte_of_isLiteral hliteral, text_of_parseFrom hparse]
    rw [Pattern.shape, List.map_map]
    rfl
  rw [← hshape]
  exact hheld.resolve_right hplaced

theorem answers (h : IsChart inserted tree) (path : String) :
    IsAnswer inserted path (resolve path ⟨tree, inserted⟩) := by
  unfold resolve
  split
  next t captured rest hfind =>
    obtain ⟨q, hq, hfills⟩ := Node.exists_of_find hfind
    obtain ⟨entry, parts, hentry, hparse, hnames, hshape⟩ := h.leads q t hq
    rw [hentry]
    refine ⟨t.index, parts, hentry, hparse, text_of_parseFrom hparse, ?_⟩
    refine hshape.imp_left fun hq => ?_
    subst hq
    rw [hnames]
    exact hfills.matches
  next hnot =>
    refine ⟨rfl, ?_⟩
    intro i served parts hi hparse hliteral
    by_contra hplaced
    exact hnot _ _ _ (h.find_of_literal hi hparse hliteral hplaced)

end IsChart

/-- Tables answer rightly, and find nothing outside the list of what they serve. -/
theorem insertAll_answers {r : Routes τ} (h : insertAll inserted = .ok r) :
    r.entries = inserted ∧
      (∀ path, IsAnswer inserted path (r.resolve path)) ∧
      (∀ path t captured rest, r.tree.find path = .found t captured rest →
        t.index < r.entries.length) ∧
      ∀ i j pattern served served', inserted[i]? = some (pattern, served) →
        inserted[j]? = some (pattern, served') → ¬IsDisplaced inserted i →
        ¬IsDisplaced inserted j → i = j := by
  obtain ⟨hentries, hchart⟩ := isChart_of_insertAll h
  obtain ⟨tree, entries⟩ := r
  obtain rfl : entries = inserted := hentries
  refine ⟨rfl, hchart.answers, ?_, ?_⟩
  · intro path t captured rest hfind
    obtain ⟨q, hq, -⟩ := Node.exists_of_find hfind
    obtain ⟨entry, _, hentry, -⟩ := hchart.leads q t hq
    exact (List.getElem?_eq_some_iff.mp hentry).1
  · intro i j pattern served served' hi hj hplaced hplaced'
    obtain ⟨parts, hparse, hheld⟩ := hchart.holds i _ hi
    obtain ⟨parts', hparse', hheld'⟩ := hchart.holds j _ hj
    cases hparse.symm.trans hparse'
    have heq := List.inj_on_of_nodup_map hchart.nodup (hheld.resolve_right hplaced)
      (hheld'.resolve_right hplaced') rfl
    injection congrArg Prod.snd heq

deriving instance DecidableEq for Resolved

theorem insertAll_answers_hello :
    ∃ r, insertAll [("/index", 0), ("/hello/:name", 1)] = .ok r ∧
      r.resolve "/hello/ada" =
        .ok ⟨"/hello/:name", 1, [(Bytes.ofText "name", Bytes.ofText "ada")]⟩ ∧
      IsAnswer [("/index", 0), ("/hello/:name", 1)] "/hello/ada" (r.resolve "/hello/ada") :=
  ⟨_, by cbv, by decide +kernel, (insertAll_answers (by cbv)).2.1 _⟩

/-- The empty route is lost to the route behind it. -/
theorem resolve_displaced :
    ∃ r, insertAll [("", 0), ("/a", 1)] = .ok r ∧ parse (Bytes.ofText "") = .ok [] ∧
      r.resolve "" = .error (.unmapped "") :=
  ⟨_, by cbv, by cbv, by cbv⟩

end Routes
end SealedHttp
