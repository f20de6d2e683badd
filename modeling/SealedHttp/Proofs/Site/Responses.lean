import SealedHttp.Proofs.Envelope.Reports
import SealedHttp.Proofs.Site.Invocations

/-!
# Responses describe themselves

A response either carries its body as it is and no negotiation header, or its negotiation headers
tell the client exactly how to get the body back. Whatever fails on the way takes the headers along.
-/

namespace SealedHttp

namespace Response

/-- A client with the given keys gets `w` out of the response, by following its headers if there
are any to follow. -/
def Describes (ring : KeyRing) (response : Response) (w : Bytes) : Prop :=
  (response.headers.IsPlain ∧ response.body = w) ∨
    ∃ e, Envelope.ofHeaders response.headers = .ok e ∧ e.isTransformed ∧
      (e.withPayload response.body).decode ring = .done w

theorem get?_close {response : Response} {name : String} (hname : name ≠ HeaderName.connection) :
    response.close.headers.get? name = response.headers.get? name :=
  Headers.get?_insert_of_ne hname

end Response

namespace Site

variable {σ : Type} {site : Site σ}

/-! ## Replies -/

@[simp] theorem body_reply (a : Arrival) (x : Exchange) (e : Envelope) :
    (reply a x e).body = e.payload := by
  rw [reply]
  split <;> rfl

/-- The other headers of a reply are none of the negotiation. -/
theorem get?_reply (a : Arrival) (x : Exchange) (e : Envelope) {name : String}
    (hname : name ∈ HeaderName.negotiation) :
    (reply a x e).headers.get? name = (e.writeHeaders .empty).get? name := by
  -- The reply also sets `Content-Type` and perhaps `Connection`.
  have hother : ∀ other ∉ HeaderName.negotiation, name ≠ other := by
    rintro _ hother rfl
    exact hother hname
  have hcontent := hother HeaderName.contentType (by decide)
  have hconnection := hother HeaderName.connection (by decide)
  rw [reply]
  split
  · exact Headers.get?_insertLegal_of_ne hcontent
  · exact (Response.get?_close hconnection).trans (Headers.get?_insertLegal_of_ne hcontent)

/-- A reply tells the kind and the charset of its content, if these can stand in a header. -/
theorem get?_contentType_reply {x : Exchange}
    (hlegal : Headers.isLegal (Bytes.ofText (x.contentKind.headerValue x.charset))) (a : Arrival)
    (e : Envelope) : (reply a x e).headers.get? HeaderName.contentType =
      some (Bytes.ofText (x.contentKind.headerValue x.charset)) := by
  rw [reply, Headers.insertLegal, if_pos hlegal]
  split
  · exact Headers.get?_insert_self
  · exact (Response.get?_close (by decide)).trans Headers.get?_insert_self

/-- An envelope that the client decodes becomes a reply that says how. -/
theorem reply_describes {ring : KeyRing} {e : Envelope} (he : e.IsPortable) {w : Bytes}
    (hdecode : e.decode ring = .done w) (a : Arrival) (x : Exchange) :
    (reply a x e).Describes ring w := by
  have hempty : Headers.empty.IsPlain := fun _ _ => rfl
  cases htransformed : e.isTransformed with
  | false =>
    left
    constructor
    · intro name hname
      rw [get?_reply a x e hname, he.writeHeaders_eq_self htransformed]
      rfl
    · rw [Envelope.decode, htransformed] at hdecode
      cases hdecode
      exact body_reply a x e
  | true =>
    right
    refine ⟨e.withPayload [], ?_, htransformed, ?_⟩
    · rw [← Envelope.ofHeaders_writeHeaders he hempty]
      exact Envelope.ofHeaders_congr fun _ hname => get?_reply a x e hname
    · rw [body_reply]
      exact hdecode

theorem reply_plain_describes (ring : KeyRing) (w : Bytes) (a : Arrival) (x : Exchange) :
    (reply a x (.plain w)).Describes ring w :=
  reply_describes (Envelope.isPortable_plain w) rfl a x

/-! ## Sealing -/

theorem payload_of_sealedResponse {policy : Policy} {a : Arrival} {w : Bytes} {d d' : Draws}
    {g : Degraded} (h : (site.sealedResponse policy a w).run d = (.degraded g, d')) :
    g.payload = w := by
  rw [sealedResponse] at h
  dsimp only at h
  split at h
  · cases h
  · rw [Envelope.run_encode, Prod.mk.injEq] at h
    exact (Envelope.eq_of_ofExcept_eq_degraded h.1).1

/-- What is sealed can be described, and the client opens it. -/
theorem decode_sealedResponse (hpair : site.ring.rsa.IsPair) {policy : Policy} {a : Arrival}
    {w : Bytes} (hw : w.length ≤ maxUnpacked)
    (hone : (policy.negotiate a.verb a.client).1.toList.count 'c' ≤ 1) {d d' : Draws}
    {e : Envelope} (h : (site.sealedResponse policy a w).run d = (.done e, d')) :
    e.IsPortable ∧ e.decode site.ring.clientRing = .done w := by
  have hring := KeyRing.openedBy_clientRing hpair
  rw [sealedResponse] at h
  dsimp only at h
  split at h
  · cases h
    exact ⟨Envelope.isPortable_plain w, rfl⟩
  · exact ⟨Envelope.isPortable_of_encode hw h, Envelope.decode_of_encode hring hw hone h⟩

theorem respond_describes (hpair : site.ring.rsa.IsPair) {policy : Policy} {a : Arrival}
    {x : Exchange} (hw : x.response.length ≤ maxUnpacked)
    (hone : (policy.negotiate a.verb a.client).1.toList.count 'c' ≤ 1) (d : Draws) :
    ((site.respond policy a x).run d).1.response = .internalError ∨
      ((site.respond policy a x).run d).1.response.Describes site.ring.clientRing x.response := by
  rw [respond, StateT.run_bind]
  rcases hsealed : (site.sealedResponse policy a x.response).run d with ⟨e | g | reason, d'⟩
  · obtain ⟨hportable, hdecode⟩ := decode_sealedResponse hpair hw hone hsealed
    exact .inr (reply_describes hportable hdecode a x)
  · right
    have hpayload := payload_of_sealedResponse hsealed
    change (reply a x (.plain g.payload)).Describes _ _
    rw [hpayload]
    exact reply_plain_describes _ _ a x
  · exact .inl rfl

theorem conclude_describes (hpair : site.ring.rsa.IsPair) {policy : Policy} {a : Arrival}
    {o : Outcome σ} (hw : o.exchange.response.length ≤ maxUnpacked)
    (hone : (policy.negotiate a.verb a.client).1.toList.count 'c' ≤ 1) (d : Draws) :
    ((site.conclude policy a o).run d).1.response = .internalError ∨
      ((site.conclude policy a o).run d).1.response.Describes site.ring.clientRing
        o.exchange.response := by
  rw [conclude]
  split
  · exact .inl rfl
  · exact respond_describes hpair hw hone d

/-- Every response is either the failure of the server or tells the client how to get at what the
handler wrote, provided that is within the limit and the chain of the response has at most one
hybrid step. -/
theorem handle_describes (hpair : site.ring.rsa.IsPair) (s : State σ) (r : Request) (worker : Nat)
    (hw : ∀ i, site.invoked? r worker s = some i →
      (site.outcome r i).exchange.response.length ≤ maxUnpacked)
    (hone : ((site.target r.path).handlerType.policy.negotiate r.verb
      (site.arrive r).1.client).1.toList.count 'c' ≤ 1) :
    ((site.handle r worker).run s).1.response = .internalError ∨
      ∃ i, site.invoked? r worker s = some i ∧
        ((site.handle r worker).run s).1.response.Describes site.ring.clientRing
          (site.outcome r i).exchange.response := by
  cases hinvoked : site.invoked? r worker s with
  | none => exact .inl (response_of_not_invoked hinvoked)
  | some i =>
    obtain ⟨hresponse, -⟩ := response_of_invoked hinvoked
    rw [hresponse]
    have hconclude := conclude_describes hpair (hw i hinvoked) (by rwa [arrive_verb]) s.draws
    exact hconclude.imp_right fun hdescribes => ⟨i, rfl, hdescribes⟩

/-- A client that asks for a hybrid seal and hexadecimal armor is told so, and gets at the greeting.
-/
theorem handle_describes_greetingSite :
    let response := ((greetingSite.handle (sealedRequest "GET") 0).run
      (greetingSite.initial ⟨id, 0⟩)).1.response
    response.headers.getText? HeaderName.originalEncrypt = some "ch" ∧
      response.body ≠ [104, 105] ∧
      ∃ e, Envelope.ofHeaders response.headers = .ok e ∧ e.isTransformed ∧
        (e.withPayload response.body).decode greetingSite.ring.clientRing = .done [104, 105] := by
  intro response
  have hannounced : response.headers.getText? HeaderName.originalEncrypt = some "ch" := by
    decide +kernel
  have hverb : (sealedRequest "GET").verb = .get := by decide +kernel
  have hwritten (i : Instance Nat) :
      (greetingSite.outcome (sealedRequest "GET") i).exchange.response = [104, 105] := by
    rw [outcome, handlerType_target_greetingSite, hverb]
    rfl
  refine ⟨hannounced, by decide +kernel, ?_⟩
  rcases handle_describes RsaKeys.isPair_mersennePair (greetingSite.initial ⟨id, 0⟩)
    (sealedRequest "GET") 0 (fun i _ => by rw [hwritten]; decide) (by decide +kernel) with
      hinternal | ⟨i, -, hplain | hdescribed⟩
  · have hstatus : response.status = 200 := by decide +kernel
    exact absurd (hstatus.symm.trans (congrArg Response.status hinternal)) (by decide)
  · have hnone := hplain.1 HeaderName.originalEncrypt (by decide)
    rw [Headers.getText?, hnone] at hannounced
    cases hannounced
  · rwa [hwritten] at hdescribed

end Site
end SealedHttp
