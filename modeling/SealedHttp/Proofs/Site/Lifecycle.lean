import SealedHttp.Proofs.Handling.Writings
import SealedHttp.Proofs.Site.Bodies
import SealedHttp.Proofs.Site.Responses
import SealedHttp.Proofs.Site.Sharing

/-!
# The life of an instance

Serving a request takes one instance and hands that instance back, reset, however its handler ends.
The failure of the server is the answer when there is no instance, or when a handler ends early
without having answered; otherwise the answer has the status that the handler set.
-/

namespace SealedHttp

variable {σ : Type}

namespace HandlerType

/-- An instance is taken from a pool: the one that was given back last, or a new one when none is
idle. -/
inductive Takes (t : HandlerType σ) (c : Constructions) (p : InstancePool σ) :
    Instance σ → InstancePool σ → Prop
  | idle {i : Instance σ} {rest : List (Instance σ)} (hidle : p.idle = i :: rest) :
      Takes t c p i { p with idle := rest }
  | made {x : σ} (hidle : p.idle = []) (hfresh : t.behaviour.fresh c.attempts = .ok x) :
      Takes t c p ⟨x, { instanceId := c.made + 1, typeName := t.name }⟩ p

variable {t : HandlerType σ} {c : Constructions} {p q : InstancePool σ} {i : Instance σ}

theorem Takes.isBlank (htakes : t.Takes c p i q) (hp : p.IsTidy) :
    i.exchange.reset = i.exchange := by
  cases htakes with
  | idle hidle => exact hp.isBlank i (hidle ▸ List.mem_cons_self)
  | made => rfl

theorem length_idle_release (t : HandlerType σ) (j : Instance σ) (q : InstancePool σ) :
    (t.release j q).2.idle.length =
      if q.idle.length < q.maxIdle then q.idle.length + 1 else q.idle.length := by
  rw [release, Pool.free, Pool.keepWithin]
  split <;> rfl

/-- Once an instance is handed back, as many are idle as before, or the first one if the bound
allows for it. -/
theorem Takes.length_release (htakes : t.Takes c p i q) (hp : p.IsTidy) (j : Instance σ) :
    (t.release j q).2.idle.length = min p.maxIdle (max p.idle.length 1) := by
  have hlength := hp.length_le
  rw [length_idle_release]
  cases htakes with
  | idle hidle =>
    rw [hidle, List.length_cons] at hlength ⊢
    dsimp only
    split <;> omega
  | made hidle =>
    rw [hidle, List.length_nil]
    split <;> omega

theorem release_congr {i j : Instance σ} (h : i.reset t.behaviour = j.reset t.behaviour)
    (p : InstancePool σ) : t.release i p = t.release j p := by
  rw [release, release, Pool.free, Pool.free, h]

end HandlerType

namespace Site

variable {site : Site σ} {s : State σ}

/-! ## Pools -/

theorem pool_of_pools {s s' : State σ} (hpools : s'.pools = s.pools)
    (hfallback : s'.fallbackPool = s.fallbackPool) (index : Option Nat) :
    s'.pool index = s.pool index := by
  cases index <;> simp only [State.pool, hpools, hfallback]

theorem IsTidy.lt_length (h : site.IsTidy s) {index : Option Nat} {t : HandlerType σ}
    (ht : site.typeAt index = some t) : ∀ k ∈ index, k < s.pools.length := by
  intro k hk
  cases hk
  rw [h.length_eq]
  exact lt_length_of_typeAt ht

/-- Replacing the pool of a type by `p` has just this effect on the pools of the types. -/
structure Replaces (site : Site σ) (index : Option Nat) (p : InstancePool σ) (s s' : State σ) :
    Prop where
  pool_eq : s'.pool index = p
  pool_of_ne : ∀ other u, site.typeAt other = some u → other ≠ index → s'.pool other = s.pool other

theorem IsTidy.replaces_setPool (h : site.IsTidy s) {index : Option Nat} {t : HandlerType σ}
    (ht : site.typeAt index = some t) (p : InstancePool σ) :
    site.Replaces index p s (s.setPool index p) where
  pool_eq := pool_setPool_self (h.lt_length ht) p
  pool_of_ne _ _ hu hne := pool_setPool_of_ne hne (h.lt_length hu) p

theorem Replaces.congr {index : Option Nat} {p : InstancePool σ} {s₁ s₂ s' : State σ}
    (h : site.Replaces index p s₁ s₂) (hs : ∀ index, s₁.pool index = s.pool index)
    (hs' : ∀ index, s'.pool index = s₂.pool index) : site.Replaces index p s s' where
  pool_eq := (hs' index).trans h.pool_eq
  pool_of_ne other u hu hne := by rw [hs', h.pool_of_ne other u hu hne, hs]

theorem Replaces.trans {index : Option Nat} {p q : InstancePool σ} {s₁ s₂ : State σ}
    (h : site.Replaces index p s s₁) (h' : site.Replaces index q s₁ s₂) :
    site.Replaces index q s s₂ where
  pool_eq := h'.pool_eq
  pool_of_ne other u hu hne := (h'.pool_of_ne other u hu hne).trans (h.pool_of_ne other u hu hne)

/-- A request finds no instance only if none is idle and none can be made, and the pools are then as
they were. Otherwise one instance is taken. -/
theorem obtained_cases (hpools : site.usePools = true) (h : site.IsTidy s) {r : Request}
    {t : Target σ} (htarget : site.target r.path = t) :
    (∃ reason failure s', site.obtained r s = (.error failure, s') ∧
        t.handlerType.behaviour.fresh s.constructions.attempts = .error reason ∧
        (s.pool t.index).idle = [] ∧ site.Replaces t.index (s.pool t.index) s s') ∨
      ∃ i q s', site.obtained r s = (.ok i, s') ∧
        t.handlerType.Takes s.constructions (s.pool t.index) i q ∧ site.IsTidy s' ∧
        site.Replaces t.index q s s' := by
  subst htarget
  have ht := typeAt_target site r.path
  have hcount : site.IsTidy (s.count (site.target r.path).key) :=
    ⟨h.length_eq, h.pools, h.fallbackPool⟩
  have hpool : ∀ index, (s.count (site.target r.path).key).pool index = s.pool index :=
    pool_of_pools rfl rfl
  have hreplaces := fun q => hcount.replaces_setPool ht q
  rcases hidle : (s.pool (site.target r.path).index).idle with _ | ⟨i, rest⟩
  · have hobtain := obtain?_of_empty hpools ((congrArg Pool.idle (hpool _)).trans hidle)
    rw [hpool, constructions_count] at hobtain
    rcases hfresh : (site.target r.path).handlerType.behaviour.fresh s.constructions.attempts with
      reason | x
    · rw [HandlerType.create_of_error (c := s.constructions) hfresh] at hobtain
      exact .inl ⟨reason, _, _, hobtain, rfl, rfl,
        (hreplaces _).congr hpool (pool_of_pools rfl rfl)⟩
    · rw [HandlerType.create_of_fresh (c := s.constructions) hfresh] at hobtain
      exact .inr ⟨_, _, _, hobtain, .made hidle hfresh, hcount.obtain? hobtain,
        (hreplaces _).congr hpool (pool_of_pools rfl rfl)⟩
  · have hobtain := obtain?_of_idle hpools ((congrArg Pool.idle (hpool _)).trans hidle)
    rw [hpool] at hobtain
    exact .inr ⟨i, _, _, hobtain, .idle hidle, hcount.obtain? hobtain,
      (hreplaces _).congr hpool fun _ => rfl⟩

theorem replaces_handle (hpools : site.usePools = true) {r : Request} {t : Target σ}
    (htarget : site.target r.path = t) {i : Instance σ} {q : InstancePool σ} {s' : State σ}
    (hobtained : site.obtained r s = (.ok i, s')) (htidy : site.IsTidy s')
    (hreplaces : site.Replaces t.index q s s') (worker : Nat) :
    site.Replaces t.index
      (t.handlerType.release (site.processed t r worker i s').1.2 q).2 s
      ((site.handle r worker).run s).2 := by
  subst htarget
  have ht := typeAt_target site r.path
  have hmid : site.IsTidy
      { (s'.drawTag worker).2 with
        draws := (site.processed (site.target r.path) r worker i s').2 } :=
    ⟨htidy.length_eq, htidy.pools, htidy.fallbackPool⟩
  have hpool : State.pool { (s'.drawTag worker).2 with
      draws := (site.processed (site.target r.path) r worker i s').2 }
        (site.target r.path).index = q :=
    (pool_of_pools rfl rfl _).trans hreplaces.pool_eq
  rw [handle_of_ok hobtained, serve_run, State.giveBack, if_pos hpools, hpool]
  exact hreplaces.trans
    ((hmid.replaces_setPool ht _).congr (pool_of_pools rfl rfl) fun _ => rfl)

/-! ## What is left of an instance -/

section Writings

variable {writings : σ → Exchange → List Writing}

/-- A method builds its response by writing, whatever state and exchange it meets. -/
def Writes (m : Method σ) (writings : σ → Exchange → List Writing) : Prop :=
  ∀ x e, (m x e).exchange = Writing.applyAll (writings x e) e

theorem reset_opened {a : Arrival} {i j : Instance σ} {log : List LogLine}
    (hopened : site.opened a i = .ok (j, log)) : j.exchange.reset = i.exchange.reset := by
  rw [opened] at hopened
  split at hopened <;> cases hopened <;> rfl

/-- A handler that only writes leaves the exchange as its own. -/
theorem reset_processed {t : Target σ} {r : Request}
    (hwrites : Writes (t.handlerType.behaviour.method r.verb) writings) (worker : Nat)
    (i : Instance σ) (s : State σ) :
    (site.processed t r worker i s).1.2.exchange.reset = i.exchange.reset := by
  have hattach : (site.attach t r (s.drawTag worker).1 i).exchange.reset = i.exchange.reset := rfl
  rw [← hattach, processed]
  rcases hopened : site.opened (site.arrive r).1 (site.attach t r (s.drawTag worker).1 i) with
    reason | ⟨j, log⟩
  · rw [process_of_error hopened]
  · rw [process_of_ok hopened, arrive_verb, ← reset_opened hopened]
    exact (congrArg Exchange.reset (hwrites j.state j.exchange)).trans
      (Writing.reset_applyAll _ _)

end Writings

/-! ## Responses -/

theorem status_reply (a : Arrival) (x : Exchange) (e : Envelope) :
    (reply a x e).status = x.status := by
  rw [reply]
  split <;> rfl

/-- The failure of the server has no content type. -/
theorem reply_ne_internalError {x : Exchange}
    (h : x.status ≠ 500 ∨ Headers.isLegal (Bytes.ofText (x.contentKind.headerValue x.charset)))
    (a : Arrival) (e : Envelope) : reply a x e ≠ .internalError := by
  intro heq
  rcases h with hstatus | hlegal
  · exact hstatus ((status_reply a x e).symm.trans (congrArg Response.status heq))
  · have hget := get?_contentType_reply hlegal a e
    rw [heq] at hget
    have hnone : Response.internalError.headers.get? HeaderName.contentType = none := by decide
    rw [hnone] at hget
    cases hget

/-- Sealing does not crash, so that there is a reply. -/
theorem respond_eq_reply (hseals : site.ring.rsa.size ≠ RsaKeys.overhead) (policy : Policy)
    (a : Arrival) (x : Exchange) (d : Draws) :
    ∃ e, ((site.respond policy a x).run d).1.response = reply a x e := by
  have hsealed : (∃ e, ((site.sealedResponse policy a x.response).run d).1 = .done e) ∨
      ∃ g, ((site.sealedResponse policy a x.response).run d).1 = .degraded g := by
    rw [sealedResponse]
    dsimp only
    split
    · exact .inl ⟨_, rfl⟩
    · rcases Envelope.encode_of_size_ne_overhead hseals _ _ _ _ d with hdone | ⟨_, hdegraded⟩
      · exact .inl hdone
      · exact .inr ⟨_, hdegraded⟩
  rw [respond, StateT.run_bind]
  rcases hrun : (site.sealedResponse policy a x.response).run d with ⟨sealed, d'⟩
  rw [hrun] at hsealed
  rcases hsealed with ⟨e, rfl⟩ | ⟨g, rfl⟩
  · exact ⟨e, rfl⟩
  · exact ⟨_, rfl⟩

/-- How a response fits to what a handler wrote before it ended. It is the failure of the server if
the handler ended early without an answer. Otherwise it has the status that was set last, and if its
content type can be told, or its status is another one, it is not that failure. -/
structure Answers (o : Outcome σ) (ws : List Writing) (response : Response) : Prop where
  internalError : o.ending.isCompleted = false → ws.any Writing.answers = false →
    response = .internalError
  status_eq : o.ending.isCompleted = true ∨ ws.any Writing.answers = true →
    response.status = Writing.lastStatus ws
  ne_internalError : o.ending.isCompleted = true ∨ ws.any Writing.answers = true →
    (Writing.lastStatus ws ≠ 500 ∨ Headers.isLegal
      (Bytes.ofText (o.exchange.contentKind.headerValue o.exchange.charset))) →
    response ≠ .internalError

theorem answers_conclude (hseals : site.ring.rsa.size ≠ RsaKeys.overhead) (policy : Policy)
    (a : Arrival) {o : Outcome σ} {ws : List Writing} {e : Exchange}
    (hblank : e.written = false ∧ e.status = 200) (hwrites : o.exchange = Writing.applyAll ws e)
    (d : Draws) : Answers o ws ((site.conclude policy a o).run d).1.response := by
  have hwritten : o.exchange.written = ws.any Writing.answers := by
    rw [hwrites, Writing.written_applyAll_of_reset hblank.1]
  have hstatus : o.exchange.status = Writing.lastStatus ws := by
    rw [hwrites, Writing.status_applyAll_of_reset hblank.2]
  have hreply : o.ending.isCompleted = true ∨ ws.any Writing.answers = true →
      ∃ envelope, ((site.conclude policy a o).run d).1.response = reply a o.exchange envelope := by
    intro hanswer
    obtain ⟨envelope, hrespond⟩ := respond_eq_reply hseals policy a o.exchange d
    refine ⟨envelope, ?_⟩
    have hsettled : (!o.ending.isCompleted && !o.exchange.written) = false := by
      rw [hwritten]
      rcases hanswer with h | h <;> simp [h]
    rw [conclude, if_neg (Bool.eq_false_iff.mp hsettled)]
    exact hrespond
  constructor
  · intro hending hsilent
    rw [conclude, if_pos (by rw [hwritten, hending, hsilent]; rfl)]
    rfl
  · intro hanswer
    obtain ⟨envelope, hresponse⟩ := hreply hanswer
    rw [hresponse, status_reply, hstatus]
  · intro hanswer htold
    obtain ⟨envelope, hresponse⟩ := hreply hanswer
    rw [hresponse]
    exact reply_ne_internalError (by rwa [hstatus]) a envelope

/-! ## Requests -/

/-- The handler of a request runs on the instance that was taken, the request attached to it, and
the response fits to how it ends. -/
theorem answers_handle (hopens : site.ring.rsa.size ≠ 0)
    (hseals : site.ring.rsa.size ≠ RsaKeys.overhead) {r : Request} {t : Target σ}
    (htarget : site.target r.path = t) {writings : σ → Exchange → List Writing}
    (hwrites : Writes (t.handlerType.behaviour.method r.verb) writings) {i : Instance σ}
    {s' : State σ} (hobtained : site.obtained r s = (.ok i, s'))
    (hblank : i.exchange.reset = i.exchange) (worker : Nat) :
    ∃ k, site.invoked? r worker s = some k ∧ k.state = i.state ∧ k.exchange.reset = i.exchange ∧
      (site.processed t r worker i s').1.2.state = (site.outcome r k).state ∧
      Answers (site.outcome r k) (writings k.state k.exchange)
        ((site.handle r worker).run s).1.response := by
  subst htarget
  have hunanswered : i.exchange.written = false ∧ i.exchange.status = 200 := by
    rw [← hblank]
    exact ⟨rfl, rfl⟩
  obtain ⟨log, hopened⟩ := exists_opened hopens (site.arrive r).1
    (site.attach (site.target r.path) r (s'.drawTag worker).1 i)
  -- Attaching a request and opening its body leave the state and the answer alone.
  obtain ⟨k, hinvoked, hstate, hreset, hkUnanswered, hleft⟩ : ∃ k,
      site.invoked? r worker s = some k ∧ k.state = i.state ∧ k.exchange.reset = i.exchange ∧
        (k.exchange.written = false ∧ k.exchange.status = 200) ∧
        (site.processed (site.target r.path) r worker i s').1.2.state =
          (site.outcome r k).state := by
    refine ⟨_, invoked?_of_obtained hopens hobtained worker, rfl, hblank, hunanswered, ?_⟩
    rw [processed, process_of_ok hopened, arrive_verb]
    rfl
  refine ⟨k, hinvoked, hstate, hreset, hleft, ?_⟩
  rw [(response_of_invoked hinvoked).1]
  exact answers_conclude hseals _ _ hkUnanswered (hwrites k.state k.exchange) s.draws

/-- Serving a request in a state in which no other request has an instance. If there is no instance
for it, the server answers with its failure and the pools stay as they are. Otherwise one instance
is taken and that instance is handed back, reset, to the pool of its type, whatever the handler
does; no other pool changes. The response fits to what the handler wrote, provided that no transform
crashes under the modulus of the server. -/
theorem handle_lifecycle (hpools : site.usePools = true) (hs : site.Reachable s) (r : Request)
    (worker : Nat) {t : Target σ} (htarget : site.target r.path = t)
    {writings : σ → Exchange → List Writing}
    (hwrites : Writes (t.handlerType.behaviour.method r.verb) writings) :
    (∃ reason, t.handlerType.behaviour.fresh s.constructions.attempts = .error reason ∧
        (s.pool t.index).idle = [] ∧
        ((site.handle r worker).run s).1.response = .internalError ∧
        site.Replaces t.index (s.pool t.index) s ((site.handle r worker).run s).2) ∨
      ∃ i q x, t.handlerType.Takes s.constructions (s.pool t.index) i q ∧
        site.Replaces t.index (t.handlerType.release ⟨x, i.exchange⟩ q).2 s
          ((site.handle r worker).run s).2 ∧
        (((site.handle r worker).run s).2.pool t.index).idle.length =
          min (s.pool t.index).maxIdle (max (s.pool t.index).idle.length 1) ∧
        (site.ring.rsa.size ≠ 0 → site.ring.rsa.size ≠ RsaKeys.overhead →
          ∃ k, site.invoked? r worker s = some k ∧ k.state = i.state ∧
            k.exchange.reset = i.exchange ∧ x = (site.outcome r k).state ∧
            Answers (site.outcome r k) (writings k.state k.exchange)
              ((site.handle r worker).run s).1.response) := by
  have htidy := hs.isTidy
  rcases obtained_cases hpools htidy htarget with
    ⟨reason, failure, s', hobtained, hfresh, hidle, hreplaces⟩ |
      ⟨i, q, s', hobtained, htakes, htidy', hreplaces⟩
  · rw [handle_of_error hobtained]
    exact .inl ⟨reason, hfresh, hidle, rfl, hreplaces⟩
  · right
    have hblank := htakes.isBlank (htidy.pool t.index)
    have hreset : (site.processed t r worker i s').1.2.reset t.handlerType.behaviour =
        Instance.reset t.handlerType.behaviour
          ⟨(site.processed t r worker i s').1.2.state, i.exchange⟩ := by
      rw [Instance.reset, Instance.reset, reset_processed hwrites]
    have hback := replaces_handle hpools htarget hobtained htidy' hreplaces worker
    rw [HandlerType.release_congr hreset] at hback
    refine ⟨i, q, _, htakes, hback, ?_, fun hopens hseals =>
      answers_handle hopens hseals htarget hwrites hobtained hblank worker⟩
    rw [hback.pool_eq]
    exact htakes.length_release (htidy.pool t.index) _

/-- A site without routes. Its only type cannot be built at the first attempt. Later it fails after
it greeted, or before anything was written. -/
def failingSite : Site Nat where
  routes := .empty
  types := []
  fallback := {
    name := "Failing"
    behaviour := {
      Script.behaviour (some [.write [104, 105], .fail "late"]) (some [.fail "early"]) false with
      fresh := fun n => if n = 0 then .error "no parts yet" else .ok 0 } }
  ring := Envelope.shortestRing
  usePools := true

theorem writes_failingSite (verb : Verb) :
    Writes (failingSite.fallback.behaviour.method verb) fun _ _ =>
      match verb with
      | .get => [.bytes [104, 105]]
      | .post => [] := by
  intro x e
  cases verb <;> rfl

/-- The first request comes too early for an instance. The second is given one. -/
theorem handle_lifecycle_failingSite :
    let s := failingSite.initial ⟨id, 0⟩
    let s' := ((failingSite.handle {} 0).run s).2
    (((failingSite.handle {} 0).run s).1.response = .internalError ∧
      s'.fallbackPool.idle = []) ∧
    (((failingSite.handle { method := "POST" } 0).run s').1.response = .internalError ∧
      ((failingSite.handle { method := "POST" } 0).run s').2.fallbackPool.idle.length = 1) ∧
    ((failingSite.handle {} 0).run s').1.response.status = 200 ∧
      ((failingSite.handle {} 0).run s').2.fallbackPool.idle.length = 1 := by
  intro s s'
  have hreachable := reachable_initial failingSite ⟨id, 0⟩
  have hreachable' : failingSite.Reachable s' := hreachable.handle {} 0
  have hopens : failingSite.ring.rsa.size ≠ 0 := by decide +kernel
  have hseals : failingSite.ring.rsa.size ≠ RsaKeys.overhead := by decide +kernel
  have htarget : ∀ path, failingSite.target path = failingSite.fallbackTarget :=
    target_of_no_types rfl
  have hattempts : s'.constructions.attempts = 1 := by decide +kernel
  refine ⟨?_, ?_, ?_⟩
  · rcases handle_lifecycle rfl hreachable {} 0 (htarget _) (writes_failingSite _) with
      ⟨_, -, -, hresponse, hreplaces⟩ | ⟨i, q, x, htakes, -⟩
    · exact ⟨hresponse, congrArg Pool.idle hreplaces.pool_eq⟩
    · rcases htakes with ⟨hidle⟩ | ⟨-, hfresh⟩
      · cases hidle
      · cases hfresh
  · rcases handle_lifecycle rfl hreachable' { method := "POST" } 0 (htarget _)
      (writes_failingSite _) with ⟨_, hfresh, -⟩ | ⟨i, q, x, -, -, hlength, hresponse⟩
    · rw [hattempts] at hfresh
      cases hfresh
    · obtain ⟨k, -, -, -, -, hanswers⟩ := hresponse hopens hseals
      refine ⟨hanswers.internalError ?_ rfl, hlength⟩
      rw [outcome, htarget]
      rfl
  · rcases handle_lifecycle rfl hreachable' {} 0 (htarget _)
      (writes_failingSite _) with ⟨_, hfresh, -⟩ | ⟨i, q, x, -, -, hlength, hresponse⟩
    · rw [hattempts] at hfresh
      cases hfresh
    · obtain ⟨k, -, -, -, -, hanswers⟩ := hresponse hopens hseals
      exact ⟨hanswers.status_eq (.inr rfl), hlength⟩

/-- A site without routes. Its only type greets, and its greeting is to be sealed with RSA. -/
def crampedSite : Site Nat where
  routes := .empty
  types := []
  fallback := {
    name := "Greeting"
    behaviour := Script.behaviour (some [.write [104, 105]]) none false
    policy := Policy.passThrough.forceEncryption (some "r") none }
  ring := ⟨Bytes.ofText KeyRing.legacyPassphrase, RsaKeys.crampedPair⟩
  usePools := true

/-- With a valid pair whose modulus is just as long as the overhead of a block, sealing crashes, and
a handler that answered is answered for with the failure of the server. -/
theorem internalError_crampedSite :
    crampedSite.ring.rsa.IsPair ∧ crampedSite.ring.rsa.size = RsaKeys.overhead ∧
      ∃ k, crampedSite.invoked? {} 0 (crampedSite.initial ⟨id, 0⟩) = some k ∧
        (crampedSite.outcome {} k).ending = .completed ∧
        (crampedSite.outcome {} k).exchange.written = true ∧
        ((crampedSite.handle {} 0).run (crampedSite.initial ⟨id, 0⟩)).1.response =
          .internalError := by
  have hopens : crampedSite.ring.rsa.size ≠ 0 := by decide +kernel
  have htarget : ∀ path, crampedSite.target path = crampedSite.fallbackTarget :=
    target_of_no_types rfl
  have hfresh (n : Nat) :
      (crampedSite.target (Request.path {})).handlerType.behaviour.fresh n = .ok 0 := by
    rw [htarget]
    rfl
  obtain ⟨k, hinvoked, -⟩ := exists_invoked hopens (s := crampedSite.initial ⟨id, 0⟩) (hfresh _) 0
  refine ⟨RsaKeys.isPair_crampedPair, RsaKeys.size_crampedPair, k, hinvoked, ?_, ?_, ?_⟩
  · rw [outcome, htarget]
    rfl
  · rw [outcome, htarget]
    rfl
  · decide +kernel

end Site
end SealedHttp
