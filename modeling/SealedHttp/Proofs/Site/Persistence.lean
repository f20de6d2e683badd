import SealedHttp.Proofs.Header.Connection
import SealedHttp.Proofs.Site.Responses

/-!
# Connections that persist

A response of a handler keeps the connection if the site allows for it and the request asks for it;
the failure of the server never does. The `Connection` header of a response always says the same as
the response itself.
-/

namespace SealedHttp

namespace Response

/-- The `Connection` header has the value `close` if the connection is not kept, and is absent
otherwise. -/
def AnnouncesClose (keepAlive : Bool) (h : Headers) : Prop :=
  h.values HeaderName.connection = if keepAlive then [] else [Bytes.ofText "close"]

theorem announcesClose_close (r : Response) : AnnouncesClose r.close.keepAlive r.close.headers :=
  Headers.values_insert_self

/-- What is transmitted announces the same once more. -/
theorem announcesClose_transmitted {r : Response} (h : AnnouncesClose r.keepAlive r.headers) :
    AnnouncesClose r.keepAlive r.transmitted.2.1 := by
  rw [transmitted]
  cases hkeep : r.keepAlive with
  | true =>
    rw [hkeep] at h
    exact h
  | false => exact Headers.values_insert_self

end Response

namespace Site

variable {σ : Type} {site : Site σ}

/-! ## Replies -/

@[simp] theorem arrive_keepAlive (site : Site σ) (r : Request) :
    (site.arrive r).1.keepAlive = (site.keepAlive && r.wantsKeepAlive) := by
  rw [arrive]
  split <;> rfl

theorem keepAlive_reply (a : Arrival) (x : Exchange) (e : Envelope) :
    (reply a x e).keepAlive = a.keepAlive := by
  rw [reply]
  cases h : a.keepAlive <;> rfl

/-- Neither the negotiation nor the content type has to do with the connection. -/
theorem announcesClose_reply (a : Arrival) (x : Exchange) (e : Envelope) :
    Response.AnnouncesClose (reply a x e).keepAlive (reply a x e).headers := by
  rw [reply]
  cases h : a.keepAlive with
  | true =>
    have hnone : (((e.writeHeaders .empty).insertLegal HeaderName.contentType
        (Bytes.ofText (x.contentKind.headerValue x.charset))).get? HeaderName.connection) = none := by
      rw [Headers.get?_insertLegal_of_ne (by decide),
        Envelope.get?_writeHeaders_of_notMem e _ (by decide)]
      rfl
    exact Headers.get?_eq_none_iff.mp hnone
  | false => exact Response.announcesClose_close _

/-! ## Responses -/

/-- Every response is the failure of the server or a reply. -/
theorem response_conclude_cases (site : Site σ) (policy : Policy) (a : Arrival) (o : Outcome σ)
    (d : Draws) :
    ((site.conclude policy a o).run d).1.response = .internalError ∨
      ∃ e, ((site.conclude policy a o).run d).1.response = reply a o.exchange e := by
  rw [conclude]
  split
  · exact .inl rfl
  · have hrespond : ((site.respond policy a o.exchange).run d).1.response = .internalError ∨
        ∃ e, ((site.respond policy a o.exchange).run d).1.response = reply a o.exchange e := by
      rw [respond, StateT.run_bind]
      rcases (site.sealedResponse policy a o.exchange.response).run d with ⟨e | g | reason, d'⟩
      · exact .inr ⟨e, rfl⟩
      · exact .inr ⟨.plain g.payload, rfl⟩
      · exact .inl rfl
    exact hrespond

theorem response_cases (site : Site σ) (s : State σ) (r : Request) (worker : Nat) :
    ((site.handle r worker).run s).1.response = .internalError ∨
      ∃ x e, ((site.handle r worker).run s).1.response = reply (site.arrive r).1 x e := by
  cases hinvoked : site.invoked? r worker s with
  | none => exact .inl (response_of_not_invoked hinvoked)
  | some i =>
    rw [(response_of_invoked hinvoked).1]
    exact (response_conclude_cases site _ _ _ _).imp_right fun ⟨e, he⟩ => ⟨_, e, he⟩

/-- A response that is not the failure of the server keeps the connection just if site and request
want that, and that failure never keeps it. Response and transmission say so in their headers. How
the entries of the request are spread over its `Connection` lines makes no difference. -/
theorem handle_persists (site : Site σ) (s : State σ) (r : Request) (worker : Nat) :
    let response := ((site.handle r worker).run s).1.response
    (response ≠ .internalError →
      (response.keepAlive = true ↔ site.keepAlive = true ∧ r.AsksToPersist)) ∧
    Response.internalError.keepAlive = false ∧
    Response.AnnouncesClose response.keepAlive response.headers ∧
    Response.AnnouncesClose response.keepAlive response.transmitted.2.1 ∧
    ∀ r' : Request, r.version = r'.version →
      Request.Rearranged (r.headers.values HeaderName.connection)
        (r'.headers.values HeaderName.connection) →
      (r.AsksToPersist ↔ r'.AsksToPersist) := by
  intro response
  have hannounces : Response.AnnouncesClose response.keepAlive response.headers := by
    rcases site.response_cases s r worker with herror | ⟨x, e, hreply⟩
    · rw [show response = .internalError from herror]
      exact Response.announcesClose_close _
    · rw [show response = reply _ x e from hreply]
      exact announcesClose_reply _ x e
  refine ⟨?_, rfl, hannounces, Response.announcesClose_transmitted hannounces, ?_⟩
  · intro hne
    obtain ⟨x, e, hreply⟩ := (site.response_cases s r worker).resolve_left hne
    rw [show response = reply _ x e from hreply, keepAlive_reply, arrive_keepAlive,
      Bool.and_eq_true, Request.wantsKeepAlive_iff]
  · intro r' hversion hrearranged
    rw [← Request.wantsKeepAlive_iff, ← Request.wantsKeepAlive_iff,
      hrearranged.wantsKeepAlive_eq hversion]

/-- A request with these `Connection` lines. -/
def connecting (lines : List String) : Request where
  headers := ⟨lines.map fun line => (HeaderName.connection, Bytes.ofText line)⟩

theorem handle_persists_connecting :
    let r := connecting ["upgrade, Close"]
    let response := ((greetingSite.handle r 0).run (greetingSite.initial ⟨id, 0⟩)).1.response
    response ≠ .internalError ∧ (response.keepAlive = true ↔ r.AsksToPersist) ∧
      (r.AsksToPersist ↔ (connecting [" Close", "upgrade"]).AsksToPersist) := by
  intro r response
  have hne : response ≠ .internalError := by decide +kernel
  obtain ⟨hkeep, -, -, -, hrearranged⟩ :=
    handle_persists greetingSite (greetingSite.initial ⟨id, 0⟩) r 0
  have hsplit : Request.Rearranged [Bytes.ofText "upgrade" ++ 44 :: Bytes.ofText " Close"]
      [Bytes.ofText "upgrade", Bytes.ofText " Close"] :=
    .split [] [] (by decide) (by decide)
  refine ⟨hne, ?_, hrearranged _ rfl (hsplit.trans (.perm (.swap _ _ _)))⟩
  rw [hkeep hne]
  exact and_iff_right rfl

end Site
end SealedHttp
