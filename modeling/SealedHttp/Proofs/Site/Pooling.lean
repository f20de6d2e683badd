import SealedHttp.Proofs.Handling.Numbers
import SealedHttp.Proofs.Site.Invocations

/-!
# Pools cannot be noticed

Whatever lies idle in a pool is new but for its number. A site that reuses instances and one that
makes a new instance for every request therefore answer alike, request by request.
-/

namespace SealedHttp

variable {σ : Type}

/-- As some attempt makes it, but for its number. -/
def HandlerType.IsFresh (t : HandlerType σ) (i : Instance σ) : Prop :=
  ∃ n x, t.behaviour.fresh n = .ok x ∧ i = ⟨x, { instanceId := i.id, typeName := t.name }⟩

namespace HandlerType

theorem IsFresh.exists_withId {t : HandlerType σ} (ht : t.behaviour.IsPoolable) {i j : Instance σ}
    (hi : t.IsFresh i) (hj : t.IsFresh j) : ∃ id, i = j.withId id := by
  obtain ⟨m, x, hx, hi⟩ := hi
  obtain ⟨n, y, hy, hj⟩ := hj
  rw [ht.fresh_eq n m, hx, Except.ok.injEq] at hy
  subst hy
  refine ⟨i.id, hi.trans ?_⟩
  rw [hj]
  rfl

/-- A reset makes an instance of a type new. -/
theorem isFresh_reset {t : HandlerType σ} (ht : t.behaviour.IsPoolable) {n : Nat} {x : σ}
    (hfresh : t.behaviour.fresh n = .ok x) {i : Instance σ}
    (hname : i.exchange.typeName = t.name) : t.IsFresh (i.reset t.behaviour) := by
  refine ⟨n, x, hfresh, ?_⟩
  rw [Instance.reset, ht.reset_eq n x hfresh, Exchange.reset, hname]
  rfl

theorem isFresh_of_mem_release {t : HandlerType σ} {i j : Instance σ} {p : InstancePool σ}
    (hp : ∀ j ∈ p.idle, t.IsFresh j) (hi : t.IsFresh (i.reset t.behaviour))
    (hj : j ∈ (t.release i p).2.idle) : t.IsFresh j := by
  rw [release, Pool.free, Pool.keepWithin] at hj
  split at hj
  · rcases List.mem_cons.mp hj with rfl | hj
    · exact hi
    · exact hp j hj
  · exact hp j hj

end HandlerType

namespace Site

/-! ## Pools that hold new instances -/

/-- The type at a position; the fallback has none. -/
def typeAt (site : Site σ) : Option Nat → Option (HandlerType σ)
  | none => some site.fallback
  | some index => site.types[index]?

theorem typeAt_target (site : Site σ) (path : String) :
    site.typeAt (site.target path).index = some (site.target path).handlerType := by
  rw [target]
  split
  · rfl
  · split
    · rfl
    · next heq => exact heq

/-- All pools of the site hold new instances of their types. -/
structure IsClean (site : Site σ) (s : State σ) : Prop where
  length_eq : s.pools.length = site.types.length
  isFresh : ∀ index t, site.typeAt index = some t → ∀ i ∈ (s.pool index).idle, t.IsFresh i

theorem lt_length_of_typeAt {site : Site σ} {index : Nat} {t : HandlerType σ}
    (h : site.typeAt (some index) = some t) : index < site.types.length :=
  (List.getElem?_eq_some_iff.mp h).1

theorem pool_setPool_self {s : State σ} {index : Option Nat} (h : ∀ k ∈ index, k < s.pools.length)
    (p : InstancePool σ) : (s.setPool index p).pool index = p := by
  cases index with
  | none => rfl
  | some k => simp [State.setPool, State.pool, h k rfl]

theorem pool_setPool_of_ne {s : State σ} {index other : Option Nat} (hne : other ≠ index)
    (h : ∀ k ∈ other, k < s.pools.length) (p : InstancePool σ) :
    (s.setPool index p).pool other = s.pool other := by
  cases other with
  | none => cases index with
    | none => exact absurd rfl hne
    | some k => rfl
  | some j => cases index with
    | none => simp [State.setPool, State.pool, h j rfl]
    | some k =>
      have hjk : k ≠ j := fun heq => hne (congrArg some heq.symm)
      simp [State.setPool, State.pool, h j rfl, List.getElem_set_of_ne hjk]

theorem IsClean.setPool {site : Site σ} {s : State σ} (h : site.IsClean s) {index : Option Nat}
    {t : HandlerType σ} (ht : site.typeAt index = some t) {p : InstancePool σ}
    (hp : ∀ i ∈ p.idle, t.IsFresh i) : site.IsClean (s.setPool index p) := by
  have hrange : ∀ other u, site.typeAt other = some u → ∀ k ∈ other, k < s.pools.length := by
    intro other u hu k hk
    cases hk
    rw [h.length_eq]
    exact lt_length_of_typeAt hu
  constructor
  · rw [← h.length_eq]
    cases index with
    | none => rfl
    | some k => exact List.length_set
  · intro other u hu i hi
    -- Only the pool that was replaced has other instances now.
    by_cases hother : other = index
    · subst hother
      rw [pool_setPool_self (hrange _ _ hu)] at hi
      rw [ht, Option.some.injEq] at hu
      exact hu ▸ hp i hi
    · rw [pool_setPool_of_ne hother (hrange _ _ hu)] at hi
      exact h.isFresh other u hu i hi

/-- Counting, tags, numbers and draws have nothing to do with the pools. -/
theorem IsClean.of_pools {site : Site σ} {s s' : State σ} (h : site.IsClean s)
    (hpools : s'.pools = s.pools) (hfallback : s'.fallbackPool = s.fallbackPool) :
    site.IsClean s' := by
  have hpool : ∀ index, s'.pool index = s.pool index := by
    intro index
    cases index <;> simp only [State.pool, hpools, hfallback]
  refine ⟨by rw [hpools, h.length_eq], ?_⟩
  intro index t ht i hi
  rw [hpool] at hi
  exact h.isFresh index t ht i hi

theorem isClean_initial (site : Site σ) (d : Draws) : site.IsClean (site.initial d) := by
  have hempty : ∀ index, ((site.initial d).pool index).idle = [] := by
    intro index
    cases index with
    | none => rfl
    | some k =>
      simp only [State.pool, initial, List.getElem?_mapIdx]
      cases site.types[k]? <;> rfl
  refine ⟨List.length_mapIdx, ?_⟩
  intro index t ht i hi
  rw [hempty] at hi
  exact absurd hi List.not_mem_nil

/-! ## One request, with and without pools -/

/-- The site with its pools in use, or out of use. -/
def withPools (site : Site σ) (usePools : Bool) : Site σ := { site with usePools }

/-- Handlers of all types can be reused. -/
structure IsPoolable (site : Site σ) : Prop where
  types : ∀ t ∈ site.types, t.behaviour.IsPoolable
  fallback : site.fallback.behaviour.IsPoolable

theorem IsPoolable.of_typeAt {site : Site σ} (h : site.IsPoolable) {index : Option Nat}
    {t : HandlerType σ} (ht : site.typeAt index = some t) : t.behaviour.IsPoolable := by
  cases index with
  | none =>
    cases ht
    exact h.fallback
  | some k => exact h.types t (List.mem_of_getElem? ht)

/-- A state of the site with pools and one of the site without, after the same requests. -/
structure Agree (site : Site σ) (s u : State σ) : Prop where
  clean : site.IsClean s
  books_eq : s.books = u.books

theorem Agree.counters_eq {site : Site σ} {s u : State σ} (h : site.Agree s u) :
    s.counters = u.counters := congrArg Books.counters h.books_eq

theorem Agree.tags_eq {site : Site σ} {s u : State σ} (h : site.Agree s u) : s.tags = u.tags :=
  congrArg Books.tags h.books_eq

theorem Agree.draws_eq {site : Site σ} {s u : State σ} (h : site.Agree s u) : s.draws = u.draws :=
  congrArg Books.draws h.books_eq

theorem Agree.count {site : Site σ} {s u : State σ} (h : site.Agree s u) (key : String) :
    site.Agree (s.count key) (u.count key) where
  clean := h.clean.of_pools rfl rfl
  books_eq := congrArg (fun b : Books => { b with counters := (b.counters.add key 1).2 }) h.books_eq

theorem Agree.drawTag {site : Site σ} {s u : State σ} (h : site.Agree s u) (worker : Nat) :
    (s.drawTag worker).1 = (u.drawTag worker).1 ∧
      site.Agree (s.drawTag worker).2 (u.drawTag worker).2 :=
  ⟨congrArg (fun tags : RequestTags => (tags.next worker).1) h.tags_eq, h.clean.of_pools rfl rfl,
    congrArg (fun b : Books => { b with tags := (b.tags.next worker).2 }) h.books_eq⟩

/-- Instances are numbered differently. -/
theorem Agree.constructions {site : Site σ} {s u : State σ} (h : site.Agree s u)
    (c d : Constructions) :
    site.Agree { s with constructions := c } { u with constructions := d } :=
  ⟨h.clean.of_pools rfl rfl, h.books_eq⟩

theorem Agree.draws {site : Site σ} {s u : State σ} (h : site.Agree s u) (d : Draws) :
    site.Agree { s with draws := d } { u with draws := d } :=
  ⟨h.clean.of_pools rfl rfl, congrArg (fun b : Books => { b with draws := d }) h.books_eq⟩

theorem Agree.setPool {site : Site σ} {s u : State σ} (h : site.Agree s u) {index : Option Nat}
    {t : HandlerType σ} (ht : site.typeAt index = some t) {p : InstancePool σ}
    (hp : ∀ i ∈ p.idle, t.IsFresh i) : site.Agree (s.setPool index p) u :=
  ⟨h.clean.setPool ht hp, (s.books_setPool index p).trans h.books_eq⟩

/-- Both sites come by a new instance, or neither comes by any. -/
theorem Agree.obtained {site : Site σ} {s u : State σ} (h : site.Agree s u) (r : Request)
    (hpoolable : (site.target r.path).handlerType.behaviour.IsPoolable) :
    (∃ e s' u', (site.withPools true).obtained r s = (.error e, s') ∧
        (site.withPools false).obtained r u = (.error e, u') ∧ site.Agree s' u') ∨
      ∃ i j s' u', (site.withPools true).obtained r s = (.ok i, s') ∧
        (site.withPools false).obtained r u = (.ok j, u') ∧ site.Agree s' u' ∧
        (site.target r.path).handlerType.IsFresh i ∧
        (site.target r.path).handlerType.IsFresh j := by
  have hpools : (site.withPools true).usePools = true := rfl
  have hnone : (site.withPools false).usePools = false := rfl
  have ht := typeAt_target site r.path
  have hcount := h.count (site.target r.path).key
  have hidles := hcount.clean.isFresh _ _ ht
  have hs : (site.withPools true).obtained r s =
      (s.count (site.target r.path).key).obtain? (site.withPools true) (site.target r.path) := rfl
  have hu : (site.withPools false).obtained r u =
      (u.count (site.target r.path).key).obtain? (site.withPools false) (site.target r.path) := rfl
  rw [hs, hu, obtain?_of_no_pools hnone]
  rcases hidle : ((s.count (site.target r.path).key).pool (site.target r.path).index).idle with
    _ | ⟨i, rest⟩
  · rw [obtain?_of_empty hpools hidle]
    have hagree := hcount.setPool ht hidles
    have hall (n : Nat) := hpoolable.fresh_eq n 0
    rcases hfresh : (site.target r.path).handlerType.behaviour.fresh 0 with reason | x
    · rw [HandlerType.create_of_error ((hall _).trans hfresh),
        HandlerType.create_of_error ((hall _).trans hfresh)]
      exact .inl ⟨_, _, _, rfl, rfl, hagree.constructions _ _⟩
    · rw [HandlerType.create_of_fresh ((hall _).trans hfresh),
        HandlerType.create_of_fresh ((hall _).trans hfresh)]
      exact .inr ⟨_, _, _, _, rfl, rfl, hagree.constructions _ _, ⟨0, x, hfresh, rfl⟩,
        ⟨0, x, hfresh, rfl⟩⟩
  · rw [obtain?_of_idle hpools hidle]
    rw [hidle] at hidles
    have hagree := hcount.setPool ht
      (p := { (s.count (site.target r.path).key).pool (site.target r.path).index with idle := rest })
      fun j hj => hidles j (List.mem_cons_of_mem i hj)
    obtain ⟨n, x, hfresh, hi⟩ := hidles i List.mem_cons_self
    rw [HandlerType.create_of_fresh ((hpoolable.fresh_eq _ n).trans hfresh)]
    exact .inr ⟨i, _, _, _, rfl, rfl, hagree.constructions _ _, ⟨n, x, hfresh, hi⟩,
      ⟨n, x, hfresh, rfl⟩⟩

/-! ## What handlers and clients see -/

end Site

/-- What a request comes to, whatever the number of the instance that served it. -/
def Served.anonymous (v : Served) : Served := { v with notes := v.notes.map (Note.withId 0) }

namespace Site

theorem attach_withId (site : Site σ) (t : Target σ) (r : Request) (tag : String)
    (i : Instance σ) (id : Nat) :
    site.attach t r tag (i.withId id) = (site.attach t r tag i).withId id := rfl

theorem opened_withId (site : Site σ) (a : Arrival) (i : Instance σ) (id : Nat) :
    site.opened a (i.withId id) = (site.opened a i).map fun p => (p.1.withId id, p.2) := by
  have hbody : (i.withId id).exchange.body = i.exchange.body := rfl
  rw [opened, opened, hbody]
  cases site.received a i.exchange.body <;> rfl

theorem met?_withId (site : Site σ) (r : Request) (tag : String) (i : Instance σ) (id : Nat) :
    site.met? r tag (i.withId id) = (site.met? r tag i).map (Instance.withId id) := by
  rw [met?, met?, attach_withId, opened_withId]
  cases site.opened (site.arrive r).1 (site.attach (site.target r.path) r tag i) <;> rfl

theorem respond_withId (site : Site σ) (policy : Policy) (a : Arrival) (e : Exchange) (id : Nat) :
    site.respond policy a (e.withId id) = site.respond policy a e := rfl

theorem conclude_withId (site : Site σ) (policy : Policy) (a : Arrival) (o : Outcome σ) (id : Nat)
    (d : Draws) :
    (site.conclude policy a (o.withId id)).run d =
      ({ ((site.conclude policy a o).run d).1 with notes := o.notes.map (Note.withId id) },
        ((site.conclude policy a o).run d).2) := by
  have hwritten : (o.exchange.withId id).written = o.exchange.written := rfl
  rw [conclude, conclude]
  simp only [Outcome.ending_withId, Outcome.exchange_withId, Outcome.notes_withId, hwritten,
    respond_withId]
  split <;> rfl

/-- The number of an instance has no influence on what its handler does. -/
theorem process_withId (site : Site σ) {t : HandlerType σ} (ht : t.behaviour.IsPoolable)
    (a : Arrival) (i : Instance σ) (id : Nat) (d : Draws) :
    (site.process t a (i.withId id)).run d =
      (({ ((site.process t a i).run d).1.1 with
            notes := ((site.process t a i).run d).1.1.notes.map (Note.withId id) },
          ((site.process t a i).run d).1.2.withId id),
        ((site.process t a i).run d).2) := by
  have hopened' := opened_withId site a i id
  rcases hopened : site.opened a i with reason | ⟨j, log⟩
  · rw [hopened] at hopened'
    rw [process_of_error hopened, process_of_error hopened']
    rfl
  · rw [hopened] at hopened'
    have hinvoke : Instance.invoke t.behaviour a.verb (j.withId id) =
        (Instance.invoke t.behaviour a.verb j).withId id :=
      ht.method_withId a.verb j.state j.exchange id
    rw [process_of_ok hopened, process_of_ok hopened', hinvoke, conclude_withId]
    simp only [notes_conclude]
    rfl

/-- A handler whose type is poolable leaves an instance of that type behind. -/
theorem typeName_process (site : Site σ) {t : HandlerType σ} (ht : t.behaviour.IsPoolable)
    (a : Arrival) (i : Instance σ) (d : Draws) :
    ((site.process t a i).run d).1.2.exchange.typeName = i.exchange.typeName := by
  rcases hopened : site.opened a i with reason | ⟨j, log⟩
  · rw [process_of_error hopened]
  · rw [process_of_ok hopened]
    have hname : j.exchange.typeName = i.exchange.typeName := by
      rw [opened] at hopened
      split at hopened <;> cases hopened <;> rfl
    exact (ht.typeName_method a.verb j.state j.exchange).trans hname

/-- Giving an instance back keeps the pools clean and changes nothing else. -/
theorem Agree.giveBack {site : Site σ} {s u : State σ} (h : site.Agree s u) {t : Target σ}
    (ht : site.typeAt t.index = some t.handlerType) {i : Instance σ}
    (hi : t.handlerType.IsFresh (i.reset t.handlerType.behaviour)) (j : Instance σ) :
    site.Agree (s.giveBack (site.withPools true) t i) (u.giveBack (site.withPools false) t j) := by
  have hpooled : s.giveBack (site.withPools true) t i =
      s.setPool t.index (t.handlerType.release i (s.pool t.index)).2 := if_pos rfl
  have hnone : u.giveBack (site.withPools false) t j = u := if_neg (by simp [withPools])
  rw [hpooled, hnone]
  exact h.setPool ht fun k hk =>
    HandlerType.isFresh_of_mem_release (h.clean.isFresh t.index _ ht) hi hk

theorem processed_withPools (site : Site σ) (usePools : Bool) (t : Target σ) (r : Request)
    (worker : Nat) (i : Instance σ) (s : State σ) :
    (site.withPools usePools).processed t r worker i s = site.processed t r worker i s := rfl

/-- A request with a new instance each: the same comes out, and the states still agree. -/
theorem Agree.serve {site : Site σ} {s u : State σ} (h : site.Agree s u) {t : Target σ}
    (ht : site.typeAt t.index = some t.handlerType)
    (hpoolable : t.handlerType.behaviour.IsPoolable) (r : Request) (worker : Nat)
    {i j : Instance σ} (hi : t.handlerType.IsFresh i) (hj : t.handlerType.IsFresh j) :
    (((site.withPools true).serve t r worker i).run s).1.anonymous =
        (((site.withPools false).serve t r worker j).run u).1.anonymous ∧
      site.Agree (((site.withPools true).serve t r worker i).run s).2
        (((site.withPools false).serve t r worker j).run u).2 := by
  obtain ⟨n, x, hfresh, hnew⟩ := id hi
  obtain ⟨id, rfl⟩ := hi.exists_withId hpoolable hj
  obtain ⟨htag, hagree⟩ := h.drawTag worker
  -- The two runs differ in the number of the instance, and thus in that number within the notes.
  have hprocessed : site.processed t r worker (j.withId id) s =
      (({ (site.processed t r worker j u).1.1 with
            notes := (site.processed t r worker j u).1.1.notes.map (Note.withId id) },
          (site.processed t r worker j u).1.2.withId id),
        (site.processed t r worker j u).2) := by
    rw [processed, attach_withId, process_withId site hpoolable, htag, h.draws_eq]
    rfl
  have hname : ((site.processed t r worker j u).1.2.withId id).exchange.typeName =
      t.handlerType.name := by
    -- The reset takes the type from the exchange, so no handler may have changed it.
    have hkept := typeName_process site hpoolable (site.arrive r).1
      (site.attach t r (u.drawTag worker).1 j) u.draws
    exact hkept.trans (congrArg (fun k => k.exchange.typeName) hnew)
  rw [serve_run, serve_run, processed_withPools, processed_withPools, hprocessed, htag]
  constructor
  · simp only [Served.anonymous, List.map_map]
    rfl
  · exact (hagree.draws _).giveBack ht (HandlerType.isFresh_reset hpoolable hfresh hname)
      (site.processed t r worker j u).1.2

theorem Agree.handle {site : Site σ} (hpoolable : site.IsPoolable) {s u : State σ}
    (h : site.Agree s u) (r : Request) (worker : Nat) :
    (((site.withPools true).handle r worker).run s).1.anonymous =
        (((site.withPools false).handle r worker).run u).1.anonymous ∧
      site.Agree (((site.withPools true).handle r worker).run s).2
        (((site.withPools false).handle r worker).run u).2 := by
  have ht := typeAt_target site r.path
  have htype := hpoolable.of_typeAt ht
  rcases h.obtained r htype with
    ⟨e, s', u', hs, hu, hagree⟩ | ⟨i, j, s', u', hs, hu, hagree, hi, hj⟩
  · rw [handle_of_error hs, handle_of_error hu]
    exact ⟨rfl, hagree⟩
  · rw [handle_of_ok hs, handle_of_ok hu]
    exact hagree.serve ht htype r worker hi hj

/-- The handler of a request is run on the same instance but for its number. -/
theorem Agree.invoked? {site : Site σ} (hpoolable : site.IsPoolable) {s u : State σ}
    (h : site.Agree s u) (r : Request) (worker : Nat) :
    ((site.withPools true).invoked? r worker s).map (Instance.withId 0) =
      ((site.withPools false).invoked? r worker u).map (Instance.withId 0) := by
  have htype := hpoolable.of_typeAt (typeAt_target site r.path)
  rw [Site.invoked?, Site.invoked?]
  rcases h.obtained r htype with ⟨e, s', u', hs, hu, -⟩ | ⟨i, j, s', u', hs, hu, hagree, hi, hj⟩
  · rw [hs, hu]
  · obtain ⟨id, rfl⟩ := hi.exists_withId htype hj
    obtain ⟨htag, -⟩ := hagree.drawTag worker
    rw [hs, hu]
    change (site.met? r (s'.drawTag worker).1 (j.withId id)).map _ =
      (site.met? r (u'.drawTag worker).1 j).map _
    rw [htag, met?_withId, Option.map_map]
    rfl

/-! ## All requests -/

/-- Serves requests one after the other, each on its worker. -/
def serveAll (site : Site σ) : List (Request × Nat) → StateM (State σ) (List Served)
  | [] => pure []
  | (r, worker) :: requests => do
    let served ← site.handle r worker
    let others ← serveAll site requests
    pure (served :: others)

theorem serveAll_cons (site : Site σ) (r : Request) (worker : Nat)
    (requests : List (Request × Nat)) (s : State σ) :
    (site.serveAll ((r, worker) :: requests)).run s =
      (((site.handle r worker).run s).1 ::
          ((site.serveAll requests).run ((site.handle r worker).run s).2).1,
        ((site.serveAll requests).run ((site.handle r worker).run s).2).2) := rfl

theorem Agree.serveAll {site : Site σ} (hpoolable : site.IsPoolable) {s u : State σ}
    (h : site.Agree s u) (requests : List (Request × Nat)) :
    (((site.withPools true).serveAll requests).run s).1.map Served.anonymous =
        (((site.withPools false).serveAll requests).run u).1.map Served.anonymous ∧
      site.Agree (((site.withPools true).serveAll requests).run s).2
        (((site.withPools false).serveAll requests).run u).2 := by
  induction requests generalizing s u with
  | nil => exact ⟨rfl, h⟩
  | cons request requests ih =>
    obtain ⟨r, worker⟩ := request
    obtain ⟨hserved, hnext⟩ := h.handle hpoolable r worker
    obtain ⟨hothers, hlast⟩ := ih hnext
    rw [serveAll_cons, serveAll_cons]
    refine ⟨?_, hlast⟩
    rw [List.map_cons, List.map_cons, hserved, hothers]

theorem agree_initial (site : Site σ) (d : Draws) :
    site.Agree ((site.withPools true).initial d) ((site.withPools false).initial d) where
  clean := (isClean_initial site d).of_pools rfl rfl
  books_eq := rfl

/-- For handlers that can be reused, a site with pools answers every list of requests as the site
without them does, given the same random draws. Counters and tags agree as well, and the handler of
any further request meets the same instance but for its number. -/
theorem pooling_unobservable {site : Site σ} (hpoolable : site.IsPoolable) (d : Draws)
    (requests : List (Request × Nat)) :
    let pooled :=
      ((site.withPools true).serveAll requests).run ((site.withPools true).initial d)
    let unpooled :=
      ((site.withPools false).serveAll requests).run ((site.withPools false).initial d)
    pooled.1.map (·.response) = unpooled.1.map (·.response) ∧
      pooled.1.map Served.anonymous = unpooled.1.map Served.anonymous ∧
      pooled.2.counters = unpooled.2.counters ∧ pooled.2.tags = unpooled.2.tags ∧
      ∀ r worker, ((site.withPools true).invoked? r worker pooled.2).map (Instance.withId 0) =
        ((site.withPools false).invoked? r worker unpooled.2).map (Instance.withId 0) := by
  obtain ⟨hserved, hagree⟩ := (agree_initial site d).serveAll hpoolable requests
  refine ⟨?_, hserved, hagree.counters_eq, hagree.tags_eq,
    hagree.invoked? hpoolable⟩
  have hresponses := congrArg (List.map fun v : Served => v.response) hserved
  rw [List.map_map, List.map_map] at hresponses
  exact hresponses

theorem isPoolable_greetingSite : greetingSite.IsPoolable where
  types _ h := absurd h List.not_mem_nil
  fallback := Script.isPoolable_behaviour _ _

theorem pooling_unobservable_greetingSite :
    (((greetingSite.withPools true).serveAll
        [(sealedRequest "POST", 0), (sealedRequest "GET", 1)]).run
          ((greetingSite.withPools true).initial ⟨id, 0⟩)).1.map (·.response) =
      (((greetingSite.withPools false).serveAll
        [(sealedRequest "POST", 0), (sealedRequest "GET", 1)]).run
          ((greetingSite.withPools false).initial ⟨id, 0⟩)).1.map (·.response) :=
  (pooling_unobservable isPoolable_greetingSite ⟨id, 0⟩ _).1

end Site
end SealedHttp
