import Mathlib.Data.List.Forall2
import SealedHttp.Proofs.Handling.Negotiation
import SealedHttp.Proofs.Site.Lifecycle

/-!
# Policies that do not follow the client

A policy that follows nothing that the client announces keeps the announcement out of the response:
requests that differ in their negotiation headers alone, however malformed, are answered alike and
leave the same state behind. If the policy forces nothing either, a response carries what the
handler wrote as it is.
-/

namespace SealedHttp

namespace Policy

/-- Neither the compression nor the chain of the client is followed. -/
def FollowsNothing (p : Policy) : Prop :=
  p.followClientCompress = false ∧ p.followClientEncrypt = false

def ForcesNothing (p : Policy) : Prop := p.forceCompress = false ∧ p.forceEncrypt = false

variable {p : Policy}

theorem FollowsNothing.negotiate_eq (h : p.FollowsNothing) (verb : Verb)
    (client client' : Envelope) : p.negotiate verb client = p.negotiate verb client' := by
  obtain ⟨hcompress, hencrypt⟩ := h
  have hkind : p.compressionFor client = p.compressionFor client' := by
    rw [compressionFor, compressionFor, hcompress]
    cases p.forceCompress <;> rfl
  have hchain : p.chainFor verb client = p.chainFor verb client' := by
    rw [chainFor, chainFor, hencrypt]
    cases p.forceEncrypt <;> rfl
  rw [negotiate, negotiate, hkind, hchain]

theorem FollowsNothing.negotiate_eq_none (hfollows : p.FollowsNothing) (hforces : p.ForcesNothing)
    (verb : Verb) (client : Envelope) : p.negotiate verb client = ("", .none) := by
  rw [negotiate, chainFor, compressionFor, hfollows.1, hfollows.2, hforces.1, hforces.2]

end Policy

/-- The handler completed, or answered before it failed. -/
def Outcome.IsAnswer {σ : Type} (o : Outcome σ) : Prop :=
  o.ending.isCompleted = true ∨ o.exchange.written = true

/-- The same arrival of a client that announces something else. -/
def Arrival.ofClient (client : Envelope) (a : Arrival) : Arrival := { a with client }

def Instance.withoutNegotiation {σ : Type} (i : Instance σ) : Instance σ :=
  { i with exchange := i.exchange.withoutNegotiation }

/-- What a request comes to, as far as it has nothing to do with the negotiation. The log is left
out, since it tells of headers that make no sense. -/
def Served.withoutNegotiation (v : Served) : Served :=
  { v with log := [], notes := v.notes.map Note.withoutNegotiation }

namespace Instance

variable {σ : Type} {b : Behaviour σ} {i j : Instance σ}

@[simp] theorem state_withoutNegotiation (i : Instance σ) :
    i.withoutNegotiation.state = i.state := rfl

@[simp] theorem exchange_withoutNegotiation (i : Instance σ) :
    i.withoutNegotiation.exchange = i.exchange.withoutNegotiation := rfl

/-- A reset forgets the negotiation along with the request. -/
@[simp] theorem reset_withoutNegotiation (b : Behaviour σ) (i : Instance σ) :
    i.withoutNegotiation.reset b = i.reset b := rfl

theorem invoke_congr (hignores : b.get.IgnoresNegotiation)
    (h : i.withoutNegotiation = j.withoutNegotiation) :
    (i.invoke b .get).withoutNegotiation = (j.invoke b .get).withoutNegotiation := by
  have hstate : i.state = j.state := by
    rw [← i.state_withoutNegotiation, h, j.state_withoutNegotiation]
  have hexchange : i.exchange.withoutNegotiation = j.exchange.withoutNegotiation := by
    rw [← i.exchange_withoutNegotiation, h, j.exchange_withoutNegotiation]
  change (b.get i.state i.exchange).withoutNegotiation =
    (b.get j.state j.exchange).withoutNegotiation
  rw [hstate]
  exact hignores j.state _ _ hexchange

end Instance

namespace Site

variable {σ : Type} {site : Site σ}

/-! ## Arrivals -/

/-- Whatever the negotiation headers hold, they bear upon the announcement alone; headers that make
no sense announce nothing. -/
theorem exists_arrive_eq_ofClient (site : Site σ) {r r' : Request}
    (h : r.withoutNegotiation = r'.withoutNegotiation) :
    ∃ client, (site.arrive r').1 = (site.arrive r).1.ofClient client := by
  have hpath : r'.path = r.path := by
    rw [← r.path_withoutNegotiation, h, r'.path_withoutNegotiation]
  have hverb : r'.verb = r.verb := by
    rw [← r.verb_withoutNegotiation, h, r'.verb_withoutNegotiation]
  have hkeep : r'.wantsKeepAlive = r.wantsKeepAlive := by
    rw [← r.wantsKeepAlive_withoutNegotiation, h, r'.wantsKeepAlive_withoutNegotiation]
  refine ⟨(site.arrive r').1.client, ?_⟩
  rw [arrive, arrive, hpath, hverb, hkeep]
  cases Envelope.ofHeaders r.headers <;> cases Envelope.ofHeaders r'.headers <;> rfl

theorem attach_withoutNegotiation (site : Site σ) (t : Target σ) (r : Request) (tag : String)
    (i : Instance σ) :
    site.attach t r.withoutNegotiation tag i.withoutNegotiation =
      (site.attach t r tag i).withoutNegotiation :=
  congrArg (Instance.mk i.state)
    (Exchange.configure_withoutNegotiation ⟨r, t.params, tag, site.server⟩ i.exchange)

/-- The envelope is all that an arrival adds to a body that is left as it is. -/
theorem meet_withoutNegotiation (a : Arrival) (i : Instance σ) :
    (meet a i.exchange.body i).withoutNegotiation = i.withoutNegotiation := rfl

/-- The body of a request that is no `POST` is left as it is. -/
theorem opened_of_ne_post {a : Arrival} (hverb : a.verb ≠ .post) (i : Instance σ) :
    site.opened a i = .ok (meet a i.exchange.body i, []) := by
  rw [opened, received_of_ne_post hverb]

/-! ## Conclusions -/

theorem conclude_ofClient {policy : Policy} (hpolicy : policy.FollowsNothing) (a : Arrival)
    (client : Envelope) (o : Outcome σ) :
    site.conclude policy (a.ofClient client) o = site.conclude policy a o := by
  have hsealed : ∀ w, site.sealedResponse policy (a.ofClient client) w =
      site.sealedResponse policy a w := by
    intro w
    rw [sealedResponse, sealedResponse, hpolicy.negotiate_eq _ _ a.client]
    rfl
  rw [conclude, conclude, respond, respond, hsealed]
  rfl

theorem conclude_withoutNegotiation (site : Site σ) (policy : Policy) (a : Arrival) (o : Outcome σ)
    (d : Draws) :
    (site.conclude policy a o.withoutNegotiation).run d =
      ({ ((site.conclude policy a o).run d).1 with notes := o.notes.map Note.withoutNegotiation },
        ((site.conclude policy a o).run d).2) := by
  have hending : o.withoutNegotiation.ending = o.ending := rfl
  have hwritten : o.withoutNegotiation.exchange.written = o.exchange.written := rfl
  rw [conclude, conclude, hending, hwritten]
  split <;> rfl

theorem conclude_congr (site : Site σ) (policy : Policy) (a : Arrival) {o o' : Outcome σ}
    (h : o.withoutNegotiation = o'.withoutNegotiation) (d : Draws) :
    ((site.conclude policy a o).run d).1.withoutNegotiation =
        ((site.conclude policy a o').run d).1.withoutNegotiation ∧
      ((site.conclude policy a o).run d).2 = ((site.conclude policy a o').run d).2 := by
  have hserved : ∀ o : Outcome σ, ((site.conclude policy a o).run d).1.withoutNegotiation =
      { ((site.conclude policy a o.withoutNegotiation).run d).1 with log := [] } := by
    intro o
    rw [conclude_withoutNegotiation, Served.withoutNegotiation, notes_conclude]
  have hdraws : ∀ o : Outcome σ, ((site.conclude policy a o).run d).2 =
      ((site.conclude policy a o.withoutNegotiation).run d).2 := by
    intro o
    rw [conclude_withoutNegotiation]
  exact ⟨by rw [hserved o, hserved o', h], by rw [hdraws o, hdraws o', h]⟩

/-! ## One request of two clients -/

theorem process_congr {t : HandlerType σ} (hpolicy : t.policy.FollowsNothing)
    (hignores : t.behaviour.get.IgnoresNegotiation) {a : Arrival} (hverb : a.verb = .get)
    (client : Envelope) {i j : Instance σ} (h : i.withoutNegotiation = j.withoutNegotiation)
    (d : Draws) :
    ((site.process t a i).run d).1.1.withoutNegotiation =
        ((site.process t (a.ofClient client) j).run d).1.1.withoutNegotiation ∧
      ((site.process t a i).run d).1.2.withoutNegotiation =
        ((site.process t (a.ofClient client) j).run d).1.2.withoutNegotiation ∧
      ((site.process t a i).run d).2 = ((site.process t (a.ofClient client) j).run d).2 := by
  have hne : a.verb ≠ .post := by simp [hverb]
  have hmet : (meet a i.exchange.body i).withoutNegotiation =
      (meet (a.ofClient client) j.exchange.body j).withoutNegotiation := by
    rw [meet_withoutNegotiation, meet_withoutNegotiation, h]
  have houtcome : (Instance.invoke t.behaviour a.verb
        (meet a i.exchange.body i)).withoutNegotiation =
      (Instance.invoke t.behaviour a.verb
        (meet (a.ofClient client) j.exchange.body j)).withoutNegotiation := by
    rw [hverb]
    exact Instance.invoke_congr hignores hmet
  obtain ⟨hserved, hdraws⟩ := site.conclude_congr t.policy a houtcome d
  rw [process_of_ok (opened_of_ne_post hne i),
    process_of_ok (opened_of_ne_post (a := a.ofClient client) hne j), conclude_ofClient hpolicy]
  exact ⟨hserved, congrArg Outcome.handler houtcome, hdraws⟩

theorem giveBack_congr (s : State σ) (t : Target σ) {i j : Instance σ}
    (h : i.reset t.handlerType.behaviour = j.reset t.handlerType.behaviour) :
    s.giveBack site t i = s.giveBack site t j := by
  rw [State.giveBack, State.giveBack, HandlerType.release_congr h]

theorem handle_of_withoutNegotiation {s : State σ} {r r' : Request}
    (h : r.withoutNegotiation = r'.withoutNegotiation) (hverb : r.verb = .get)
    (hpolicy : (site.target r.path).handlerType.policy.FollowsNothing)
    (hignores : (site.target r.path).handlerType.behaviour.get.IgnoresNegotiation) (worker : Nat) :
    ((site.handle r worker).run s).1.withoutNegotiation =
        ((site.handle r' worker).run s).1.withoutNegotiation ∧
      ((site.handle r worker).run s).2 = ((site.handle r' worker).run s).2 := by
  have hpath : r'.path = r.path := by
    rw [← r.path_withoutNegotiation, h, r'.path_withoutNegotiation]
  obtain ⟨client, harrive⟩ := site.exists_arrive_eq_ofClient h
  have hobtained : site.obtained r' s = site.obtained r s := by rw [obtained, obtained, hpath]
  rcases hr : site.obtained r s with ⟨failure | i, s'⟩
  · rw [handle_of_error hr, handle_of_error (hobtained.trans hr), hpath]
    exact ⟨rfl, rfl⟩
  · have hattached :
        (site.attach (site.target r.path) r (s'.drawTag worker).1 i).withoutNegotiation =
          (site.attach (site.target r.path) r' (s'.drawTag worker).1 i).withoutNegotiation := by
      rw [← attach_withoutNegotiation, h, attach_withoutNegotiation]
    obtain ⟨hserved, hback, hdraws⟩ := site.process_congr hpolicy hignores
      ((arrive_verb site r).trans hverb) client hattached s'.draws
    have hreset := congrArg (Instance.reset (site.target r.path).handlerType.behaviour) hback
    rw [Instance.reset_withoutNegotiation, Instance.reset_withoutNegotiation] at hreset
    rw [handle_of_ok hr, handle_of_ok (hobtained.trans hr), hpath, serve_run, serve_run, processed,
      processed, harrive]
    refine ⟨hserved, ?_⟩
    rw [hdraws]
    exact giveBack_congr _ _ hreset

/-! ## Runs of two clients -/

/-- The requests of two clients that go to one worker: the same request, or one that differs in its
negotiation headers, is no `POST`, and leads to a type that does not follow the client. -/
inductive Indistinct (site : Site σ) : Request × Nat → Request × Nat → Prop
  | same (r : Request) (worker : Nat) : Indistinct site (r, worker) (r, worker)
  | renegotiated {r r' : Request} (worker : Nat)
      (same_rest : r.withoutNegotiation = r'.withoutNegotiation) (verb_eq : r.verb = .get)
      (follows : (site.target r.path).handlerType.policy.FollowsNothing)
      (ignores : (site.target r.path).handlerType.behaviour.get.IgnoresNegotiation) :
      Indistinct site (r, worker) (r', worker)

theorem Indistinct.handle_congr {request request' : Request × Nat}
    (h : site.Indistinct request request') (s : State σ) :
    ((site.handle request.1 request.2).run s).1.withoutNegotiation =
        ((site.handle request'.1 request'.2).run s).1.withoutNegotiation ∧
      ((site.handle request.1 request.2).run s).2 =
        ((site.handle request'.1 request'.2).run s).2 := by
  cases h with
  | same => exact ⟨rfl, rfl⟩
  | renegotiated worker hrest hverb hfollows hignores =>
    exact handle_of_withoutNegotiation hrest hverb hfollows hignores worker

/-- No state that requests lead to tells two clients apart, so that later requests do not either. -/
theorem serveAll_congr {requests requests' : List (Request × Nat)}
    (h : List.Forall₂ site.Indistinct requests requests') (s : State σ) :
    ((site.serveAll requests).run s).1.map Served.withoutNegotiation =
        ((site.serveAll requests').run s).1.map Served.withoutNegotiation ∧
      ((site.serveAll requests).run s).2 = ((site.serveAll requests').run s).2 := by
  induction h generalizing s with
  | nil => exact ⟨rfl, rfl⟩
  | cons hrequest _ ih =>
    obtain ⟨hserved, hstate⟩ := hrequest.handle_congr s
    rw [serveAll_cons, serveAll_cons, hstate]
    obtain ⟨hothers, hlast⟩ := ih _
    refine ⟨?_, hlast⟩
    rw [List.map_cons, List.map_cons, hserved, hothers]

/-! ## Nothing is forced -/

/-- Without any transform, the response is what the handler wrote, or the failure of the server in
place of an answer. -/
theorem conclude_of_forcesNothing {policy : Policy} (hfollows : policy.FollowsNothing)
    (hforces : policy.ForcesNothing) (a : Arrival) (o : Outcome σ) (d : Draws) :
    (o.IsAnswer ∧ ((site.conclude policy a o).run d).1.response =
        reply a o.exchange (.plain o.exchange.response)) ∨
      (¬o.IsAnswer ∧ ((site.conclude policy a o).run d).1.response = .internalError) := by
  have hsealed : site.sealedResponse policy a o.exchange.response =
      pure (.done (.plain o.exchange.response)) := by
    rw [sealedResponse, hfollows.negotiate_eq_none hforces]
    rfl
  by_cases hanswer : o.IsAnswer
  · refine .inl ⟨hanswer, ?_⟩
    rw [conclude, if_neg (by simpa [Outcome.IsAnswer, or_iff_not_imp_left] using hanswer), respond,
      hsealed]
    rfl
  · refine .inr ⟨hanswer, ?_⟩
    rw [conclude, if_pos (by simpa [Outcome.IsAnswer] using hanswer)]
    rfl

theorem isPlain_reply_plain (a : Arrival) (x : Exchange) (w : Bytes) :
    (reply a x (.plain w)).headers.IsPlain := by
  intro name hname
  rw [get?_reply a x _ hname, (Envelope.isPortable_plain w).writeHeaders_eq_self rfl]
  rfl

/-- A type that does not follow the client answers all clients alike: requests that are no `POST`
and differ in their negotiation headers alone have the same response and lead to the same state, for
a handler that does not look at the negotiation. If nothing is forced either, any request whose
handler came to an answer has that answer as it is and without negotiation headers, and the failure
of the server stands for any other. -/
theorem handle_disregards_client (site : Site σ) (s : State σ) (r : Request) (worker : Nat)
    (hfollows : (site.target r.path).handlerType.policy.FollowsNothing) :
    let response := ((site.handle r worker).run s).1.response
    (∀ r' : Request, r.withoutNegotiation = r'.withoutNegotiation → r.verb ≠ .post →
      (site.target r.path).handlerType.behaviour.get.IgnoresNegotiation →
        response = ((site.handle r' worker).run s).1.response ∧
          ((site.handle r worker).run s).2 = ((site.handle r' worker).run s).2) ∧
    ((site.target r.path).handlerType.policy.ForcesNothing →
      (∃ i, site.invoked? r worker s = some i ∧ (site.outcome r i).IsAnswer ∧
        response.headers.IsPlain ∧ response.body = (site.outcome r i).exchange.response) ∨
      ((∀ i, site.invoked? r worker s = some i → ¬(site.outcome r i).IsAnswer) ∧
        response = .internalError)) := by
  intro response
  constructor
  · intro r' hrest hpost hignores
    have hverb : r.verb = .get := by
      cases hverb : r.verb with
      | get => rfl
      | post => exact absurd hverb hpost
    obtain ⟨hserved, hstate⟩ := handle_of_withoutNegotiation hrest hverb hfollows hignores worker
    have hresponse := congrArg Served.response hserved
    exact ⟨hresponse, hstate⟩
  · intro hforces
    cases hinvoked : site.invoked? r worker s with
    | none =>
      refine .inr ⟨?_, response_of_not_invoked hinvoked⟩
      intro i hi
      cases hi
    | some i =>
      have hresponse : response = _ := (response_of_invoked hinvoked).1
      rcases conclude_of_forcesNothing hfollows hforces (site.arrive r).1 (site.outcome r i) s.draws
        with ⟨hanswer, hreply⟩ | ⟨hanswer, herror⟩
      · left
        rw [hresponse, hreply]
        exact ⟨i, rfl, hanswer, isPlain_reply_plain _ _ _, body_reply _ _ _⟩
      · right
        rw [hresponse, herror]
        exact ⟨fun j hj => Option.some.inj hj ▸ hanswer, rfl⟩

/-- A site without routes. Its only type repeats the body and greets, under the given policy. -/
def repeatingSite (policy : Policy) : Site Nat where
  routes := .empty
  types := []
  fallback := {
    name := "Repeating"
    behaviour := Script.behaviour (some [.echo, .write [104, 105]]) (some [.echo]) false
    policy }
  ring := Envelope.shortestRing

/-- A request that negotiates with these values. -/
def negotiating (values : List (String × Bytes)) : Request where
  headers := ⟨(HeaderName.contentType, Bytes.ofText "text/html") :: values⟩
  body := [33]

/-- With a forced chain, a client whose headers make no sense is answered as one that asks for a
hybrid seal: both get hexadecimal digits. With nothing forced, what is posted comes back as it was
opened. -/
theorem handle_disregards_client_repeatingSite :
    let sealing := repeatingSite (Policy.passThrough.forceEncryption (some "h") none)
    let garbled := negotiating [(HeaderName.originalEncrypt, [0xFF])]
    let asking := negotiating [(HeaderName.originalEncrypt, Bytes.ofText "ch")]
    (((sealing.handle garbled 0).run (sealing.initial ⟨id, 0⟩)).1.response =
        ((sealing.handle asking 0).run (sealing.initial ⟨id, 0⟩)).1.response ∧
      ((sealing.handle garbled 0).run (sealing.initial ⟨id, 0⟩)).1.response.body =
        Bytes.ofText "216869") ∧
      let plain := repeatingSite .passThrough
      let posted := { asking with method := "POST" }
      let response := ((plain.handle posted 0).run (plain.initial ⟨id, 0⟩)).1.response
      ∃ i, plain.invoked? posted 0 (plain.initial ⟨id, 0⟩) = some i ∧
        (plain.outcome posted i).IsAnswer ∧ response.headers.IsPlain ∧
        response.body = (plain.outcome posted i).exchange.response := by
  intro sealing garbled asking
  have htarget : ∀ policy path, (repeatingSite policy).target path =
      (repeatingSite policy).fallbackTarget := fun _ => target_of_no_types rfl
  have hfollows : ∀ policy path, policy.FollowsNothing →
      ((repeatingSite policy).target path).handlerType.policy.FollowsNothing := by
    intro policy path h
    rw [htarget]
    exact h
  constructor
  · refine ⟨?_, by decide +kernel⟩
    refine ((handle_disregards_client sealing (sealing.initial ⟨id, 0⟩) garbled 0
      (hfollows _ _ ⟨rfl, rfl⟩)).1 asking rfl (by decide +kernel) ?_).1
    rw [htarget]
    exact Script.ignoresNegotiation_method .get _
  · intro plain posted response
    have hforces : (plain.target posted.path).handlerType.policy.ForcesNothing := by
      rw [htarget]
      exact ⟨rfl, rfl⟩
    refine ((handle_disregards_client plain (plain.initial ⟨id, 0⟩) posted 0
      (hfollows _ _ ⟨rfl, rfl⟩)).2 hforces).resolve_right fun h => ?_
    exact absurd h.2 (by decide +kernel)

end Site
end SealedHttp
