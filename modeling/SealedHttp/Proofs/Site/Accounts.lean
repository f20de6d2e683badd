import SealedHttp.Proofs.Accounting.Tags
import SealedHttp.Proofs.Accounting.Tallies
import SealedHttp.Proofs.Site.Pooling

/-!
# What a run is accounted for

Every request is counted once, under the route that its path leads to or under the name of the
fallback, whether it is answered or not. A request that comes by an instance draws one tag of its
worker, and one that does not draws none.
-/

namespace SealedHttp

open Counters RequestTags

theorem Routes.mem_entries_of_resolve {τ : Type} {routes : Routes τ} {path : String}
    {r : Resolved τ} (h : routes.resolve path = .ok r) :
    (r.pattern, r.served) ∈ routes.entries := by
  rw [resolve] at h
  split at h
  · split at h
    · next hentry =>
      cases h
      exact List.mem_of_getElem? hentry
    · cases h
  · cases h

namespace Site

variable {σ : Type} {site : Site σ} {s : State σ} {r : Request} {worker : Nat}

/-- Routes lead to types that exist. -/
def IsWired (site : Site σ) : Prop := ∀ entry ∈ site.routes.entries, entry.2 < site.types.length

/-- Where a request is counted. -/
theorem key_target (hwired : site.IsWired) (path : String) :
    (site.target path).key =
      match site.routes.resolve path with
      | .ok r => r.pattern
      | .error _ => site.fallback.name := by
  rw [target]
  rcases hresolve : site.routes.resolve path with e | r
  · rfl
  · have hlt := hwired _ (Routes.mem_entries_of_resolve hresolve)
    simp only [List.getElem?_eq_getElem hlt]

/-! ## Visits -/

/-- A request that was served, on which worker, and what it found the site in. -/
structure Visit (σ : Type) where
  request : Request
  worker : Nat
  before : State σ

namespace Visit

def key (site : Site σ) (v : Visit σ) : String := (site.target v.request.path).key

/-- Whether the path of the request resolves to this route. -/
def leadsTo (site : Site σ) (pattern : String) (v : Visit σ) : Bool :=
  match site.routes.resolve v.request.path with
  | .ok r => r.pattern = pattern
  | .error _ => false

/-- The tag that the request draws, if there is an instance for it. -/
def tag? (site : Site σ) (v : Visit σ) : Option String :=
  match site.obtained v.request v.before with
  | (.error _, _) => none
  | (.ok _, s) => some (s.drawTag v.worker).1

/-- Whether the request came by an instance. -/
def hasInstance (site : Site σ) (v : Visit σ) : Bool :=
  (site.obtained v.request v.before).1.isOk

theorem leadsTo_iff (hwired : site.IsWired) {pattern : String}
    (hpattern : pattern ≠ site.fallback.name) (v : Visit σ) :
    v.leadsTo site pattern = true ↔ v.key site = pattern := by
  rw [leadsTo, key, key_target hwired]
  split
  · exact decide_eq_true_iff
  · exact ⟨nofun, fun h => absurd h.symm hpattern⟩

/-- The handler of a request sees the tag that was drawn for it. -/
theorem tag_of_invoked {v : Visit σ} {i : Instance σ}
    (h : site.invoked? v.request v.worker v.before = some i) : i.exchange.tag = v.tag? site := by
  rw [invoked?] at h
  rw [tag?]
  rcases hobtained : site.obtained v.request v.before with ⟨failure | j, s⟩
  · rw [hobtained] at h
    cases h
  · rw [hobtained] at h
    simp only [met?, opened] at h
    -- Opening the body replaces body and envelope, never the context.
    split at h
    · cases h
    · next hopened =>
      cases h
      split at hopened <;> cases hopened <;> rfl

end Visit

/-- The visits of a run. -/
def visits (site : Site σ) : List (Request × Nat) → State σ → List (Visit σ)
  | [], _ => []
  | (r, worker) :: requests, s =>
    ⟨r, worker, s⟩ :: site.visits requests ((site.handle r worker).run s).2

theorem requests_visits (site : Site σ) (requests : List (Request × Nat)) (s : State σ) :
    (site.visits requests s).map (fun v => (v.request, v.worker)) = requests := by
  induction requests generalizing s with
  | nil => rfl
  | cons request requests ih => rw [visits, List.map_cons, ih]

theorem length_visits (site : Site σ) (requests : List (Request × Nat)) (s : State σ) :
    (site.visits requests s).length = requests.length := by
  rw [← List.length_map, requests_visits]

/-- The tags that a worker drew, in order. -/
def tagsOf (site : Site σ) (worker : Nat) (visits : List (Visit σ)) : List String :=
  visits.filterMap fun v => if v.worker = worker then v.tag? site else none

theorem tagsOf_concat (worker : Nat) (visits : List (Visit σ)) (v : Visit σ) :
    site.tagsOf worker (visits ++ [v]) =
      site.tagsOf worker visits ++ (if v.worker = worker then v.tag? site else none).toList :=
  filterMap_concat _ _ _

/-- The workers of the requests that came by an instance, in order. -/
def drawers (site : Site σ) (visits : List (Visit σ)) : List Nat :=
  (visits.filter (·.hasInstance site)).map (·.worker)

theorem count_drawers (site : Site σ) (visits : List (Visit σ)) (worker : Nat) :
    (site.drawers visits).count worker =
      visits.countP fun v => v.worker = worker && v.hasInstance site := by
  rw [drawers, List.count, List.countP_map, List.countP_filter]
  rfl

theorem drawers_concat (visits : List (Visit σ)) (v : Visit σ) :
    site.drawers (visits ++ [v]) =
      if v.hasInstance site then site.drawers visits ++ [v.worker] else site.drawers visits := by
  rw [drawers, List.filter_append, List.map_append]
  by_cases h : v.hasInstance site = true
  · simp only [h, List.filter_cons_of_pos, List.filter_nil, List.map_singleton, if_true, drawers]
  · simp only [h, List.filter_cons_of_neg, List.filter_nil, List.map_nil, List.append_nil, drawers,
      Bool.false_eq_true, if_false, not_false_eq_true]

/-! ## One request -/

/-- Without an instance, counting the request is all that happens to the books. -/
theorem books_handle_of_error {e : InstanceError} {s' : State σ}
    (h : site.obtained r s = (.error e, s')) :
    ((site.handle r worker).run s).2.books = (s.count (site.target r.path).key).books := by
  rw [handle_of_error h, books_of_obtained h]

/-- With one, a tag is drawn as well, and the response may take random draws. -/
theorem books_handle_of_ok {i : Instance σ} {s' : State σ} (h : site.obtained r s = (.ok i, s')) :
    ((site.handle r worker).run s).2.books =
      ⟨(s.count (site.target r.path).key).counters, (s.tags.next worker).2,
        (site.processed (site.target r.path) r worker i s').2⟩ := by
  have hbooks := books_of_obtained h
  have hcounters : s'.counters = (s.count (site.target r.path).key).counters :=
    congrArg Books.counters hbooks
  have htags : s'.tags = s.tags := congrArg Books.tags hbooks
  rw [handle_of_ok h, serve_run, State.books_giveBack, ← hcounters, ← htags]
  rfl

/-- Whatever comes of a request, it is counted. -/
theorem counters_handle (site : Site σ) (r : Request) (worker : Nat) (s : State σ) :
    ((site.handle r worker).run s).2.counters =
      (s.counters.add (site.target r.path).key 1).2 := by
  rcases hobtained : site.obtained r s with ⟨failure | i, s'⟩
  · exact congrArg Books.counters (books_handle_of_error hobtained)
  · exact congrArg Books.counters (books_handle_of_ok hobtained)

/-! ## Runs -/

/-- The counters and tags of a state, after these visits. -/
structure Ledger (site : Site σ) (visits : List (Visit σ)) (s : State σ) : Prop where
  counters : IsTally (visits.map (·.key site)) s.counters
  drawn : IsTally (site.drawers visits) s.tags.drawn
  tags_eq : ∀ worker, site.tagsOf worker visits =
    (List.range ((site.drawers visits).count worker)).map fun n => text worker ((n + 1) % 2 ^ 64)

theorem ledger_initial (site : Site σ) (d : Draws) : site.Ledger [] (site.initial d) where
  counters := isTally_empty
  drawn := isTally_empty
  tags_eq _ := rfl

theorem Ledger.handle {visits : List (Visit σ)} (h : site.Ledger visits s) (r : Request)
    (worker : Nat) : site.Ledger (visits ++ [⟨r, worker, s⟩]) ((site.handle r worker).run s).2 := by
  have hcounters : IsTally ((visits ++ [(⟨r, worker, s⟩ : Visit σ)]).map (·.key site))
      ((site.handle r worker).run s).2.counters := by
    rw [counters_handle, List.map_append]
    exact h.counters.add _
  rcases hobtained : site.obtained r s with ⟨failure | i, s'⟩
  · -- No instance, so no tag: the tallies of tags stay as they are.
    have htags : ((site.handle r worker).run s).2.tags = s.tags :=
      congrArg Books.tags (books_handle_of_error hobtained)
    have hdrawers : site.drawers (visits ++ [⟨r, worker, s⟩]) = site.drawers visits := by
      rw [drawers_concat, Visit.hasInstance, hobtained]
      rfl
    refine ⟨hcounters, ?_, fun w => ?_⟩
    · rw [hdrawers, htags]
      exact h.drawn
    · rw [hdrawers, ← h.tags_eq, tagsOf_concat, Visit.tag?, hobtained, ite_self,
        Option.toList_none, List.append_nil]
  · have htags : ((site.handle r worker).run s).2.tags = (s.tags.next worker).2 :=
      congrArg Books.tags (books_handle_of_ok hobtained)
    have hdrawers :
        site.drawers (visits ++ [⟨r, worker, s⟩]) = site.drawers visits ++ [worker] := by
      rw [drawers_concat, Visit.hasInstance, hobtained]
      rfl
    have htag : Visit.tag? site ⟨r, worker, s⟩ =
        some (text worker (((site.drawers visits).count worker + 1) % 2 ^ 64)) := by
      have hbefore : s'.tags = s.tags := congrArg Books.tags (books_of_obtained hobtained)
      rw [← h.drawn.toNat_add, ← hbefore, Visit.tag?, hobtained]
      rfl
    refine ⟨hcounters, ?_, fun w => ?_⟩
    · rw [hdrawers, htags, next]
      exact h.drawn.add worker
    · rw [hdrawers, tagsOf_concat, h.tags_eq, List.count_append, List.count_singleton]
      by_cases hw : worker = w
      · rw [if_pos hw, htag, Option.toList_some, hw, beq_self_eq_true, if_pos rfl,
          List.range_succ, List.map_append, List.map_singleton]
      · rw [if_neg hw, beq_false_of_ne hw, if_neg Bool.false_ne_true, Option.toList_none,
          List.append_nil, Nat.add_zero]

theorem Ledger.serveAll {visits : List (Visit σ)} (h : site.Ledger visits s)
    (requests : List (Request × Nat)) :
    site.Ledger (visits ++ site.visits requests s) ((site.serveAll requests).run s).2 := by
  induction requests generalizing visits s with
  | nil =>
    rw [Site.visits, List.append_nil]
    exact h
  | cons request requests ih =>
    obtain ⟨r, worker⟩ := request
    rw [serveAll_cons, Site.visits, List.append_cons]
    exact ih (h.handle r worker)

/-! ## Accounts -/

/-- What counters and tags say about the visits so far. A number that is counted up to `n` shows as
`read n`. -/
structure IsAccounted (read : Nat → Nat) (site : Site σ) (visits : List (Visit σ)) (s : State σ) :
    Prop where
  keys_nodup : (s.counters.snapshot.map (·.1)).Nodup
  key_known : ∀ key ∈ s.counters.snapshot.map (·.1),
    key = site.fallback.name ∨ ∃ served, (key, served) ∈ site.routes.entries
  length_le : s.counters.snapshot.length ≤ site.routes.entries.length + 1
  sum_eq : read (s.counters.snapshot.map (·.2.toNat)).sum = read visits.length
  get_eq : ∀ pattern, pattern ≠ site.fallback.name →
    (s.counters.get pattern).toNat = read (visits.countP (·.leadsTo site pattern))
  tags_eq : ∀ worker, site.tagsOf worker visits =
    (List.range (visits.countP fun v => v.worker = worker && v.hasInstance site)).map fun n =>
      text worker (read (n + 1))

/-- The numbers of a run go no further than the number of its visits. -/
theorem Ledger.isAccounted (hwired : site.IsWired) {visits : List (Visit σ)}
    (h : site.Ledger visits s) {read : Nat → Nat}
    (hread : ∀ n, n ≤ visits.length → n % 2 ^ 64 = read n)
    (hsum : read (s.counters.snapshot.map (·.2.toNat)).sum = read visits.length) :
    site.IsAccounted read visits s := by
  have hkeys := h.counters.keys_nodup
  have hknown : ∀ key ∈ s.counters.keys,
      key ∈ site.fallback.name :: site.routes.entries.map Prod.fst := by
    intro key hkey
    obtain ⟨v, -, rfl⟩ := List.mem_map.mp ((h.counters.mem_keys_iff key).mp hkey)
    rw [Visit.key, key_target hwired]
    split
    · next hresolve =>
      apply List.mem_cons_of_mem
      exact List.mem_map_of_mem (Routes.mem_entries_of_resolve hresolve)
    · exact List.mem_cons_self
  constructor
  · exact hkeys
  · intro key hkey
    rcases List.mem_cons.mp (hknown key hkey) with hfallback | hroute
    · exact .inl hfallback
    · obtain ⟨⟨_, served⟩, hentry, rfl⟩ := List.mem_map.mp hroute
      exact .inr ⟨served, hentry⟩
  · have hle := (List.subperm_of_subset hkeys hknown).length_le
    rwa [Counters.keys, List.length_map, List.length_cons, List.length_map] at hle
  · exact hsum
  · intro pattern hpattern
    have hcount : (visits.map (·.key site)).count pattern =
        visits.countP (·.leadsTo site pattern) := by
      rw [List.count, List.countP_map]
      apply List.countP_congr
      intro v _
      rw [Visit.leadsTo_iff hwired hpattern]
      exact beq_iff_eq
    rw [h.counters.get_eq, hcount]
    exact hread _ List.countP_le_length
  · intro worker
    rw [h.tags_eq, count_drawers]
    apply List.map_congr_left
    intro n hn
    rw [hread (n + 1) ((List.mem_range.mp hn).trans_le List.countP_le_length)]

/-- However handlers end and whether or not there are instances: after any run, counters and tags
are those of its requests, modulo the size of a counter, and exactly if there were not too many. The
handler of a request sees the tag that the request drew. -/
theorem serveAll_isAccounted (hwired : site.IsWired) (d : Draws) (requests : List (Request × Nat)) :
    let visits := site.visits requests (site.initial d)
    let s := ((site.serveAll requests).run (site.initial d)).2
    visits.map (fun v => (v.request, v.worker)) = requests ∧
      site.IsAccounted (· % 2 ^ 64) visits s ∧
      (requests.length < 2 ^ 64 → site.IsAccounted id visits s) ∧
      ∀ v ∈ visits, ∀ i, site.invoked? v.request v.worker v.before = some i →
        i.exchange.tag = v.tag? site := by
  have hledger := (ledger_initial site d).serveAll requests
  rw [List.nil_append] at hledger
  have hlength := length_visits site requests (site.initial d)
  refine ⟨requests_visits _ _ _, ?_, ?_, fun v _ i hinvoked => Visit.tag_of_invoked hinvoked⟩
  · apply hledger.isAccounted hwired fun _ _ => rfl
    rw [hledger.counters.sum_mod_eq, List.length_map]
  · intro hrequests
    rw [← hlength] at hrequests
    apply hledger.isAccounted hwired
    · exact fun n hn => Nat.mod_eq_of_lt (hn.trans_lt hrequests)
    · rw [hledger.counters.sum_eq (by rwa [List.length_map]), List.length_map]

/-- A site whose only route greets, and whose fallback can be built at every other attempt only. -/
def flakySite : Site Nat where
  routes := ⟨.mk (Bytes.ofText "/g") (some ⟨0, []⟩) 1 .nil .none, [("/g", 0)]⟩
  types := [greetingSite.fallback]
  fallback := {
    name := "Flaky"
    behaviour := {
      fresh := fun n => if n % 2 = 0 then .ok 0 else .error "no parts"
      reset := id } }
  ring := Envelope.shortestRing
  usePools := true

def requestOf (path : String) : Request := { uri := { written := path } }

/-- The fallback cannot be built for the first request that it is to serve, but for the second. -/
theorem serveAll_isAccounted_flakySite :
    let requests :=
      [(requestOf "/g", 3), (requestOf "/x", 3), (requestOf "/x", 3), (requestOf "/g", 4)]
    let visits := flakySite.visits requests (flakySite.initial ⟨id, 0⟩)
    let s := ((flakySite.serveAll requests).run (flakySite.initial ⟨id, 0⟩)).2
    flakySite.IsAccounted id visits s ∧
      visits.map (·.hasInstance flakySite) = [true, false, true, true] ∧
      (s.counters.get "/g").toNat = 2 ∧ flakySite.tagsOf 3 visits = ["3_1", "3_2"] := by
  have hwired : flakySite.IsWired := by simp [IsWired, flakySite]
  have haccounted := (serveAll_isAccounted hwired ⟨id, 0⟩
    [(requestOf "/g", 3), (requestOf "/x", 3), (requestOf "/x", 3), (requestOf "/g", 4)]).2.2.1
      (by decide)
  refine ⟨haccounted, by decide +kernel, ?_, ?_⟩
  · rw [haccounted.get_eq "/g" (by decide)]
    decide +kernel
  · rw [haccounted.tags_eq]
    decide +kernel

end Site
end SealedHttp
