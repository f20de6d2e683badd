import SealedHttp.Proofs.Envelope.Crashes
import SealedHttp.Proofs.Envelope.Reports
import SealedHttp.Proofs.Site.Invocations

/-!
# What handlers meet

The handler of a request sees either exactly what the client encoded or exactly what was received.
A body is opened as a whole or left as it is, and only with `POST`.
-/

namespace SealedHttp.Site

variable {σ : Type} {site : Site σ}

/-! ## Opening bodies -/

/-- The body that the handler of a request gets to see. -/
def bodyOf (site : Site σ) (a : Arrival) (body : Bytes) : Bytes :=
  match site.received a body with
  | .done data => data
  | _ => body

theorem received_of_ne_post {a : Arrival} (h : a.verb ≠ .post) (body : Bytes) :
    site.received a body = .done body := by
  rw [received, if_neg (by simp [h])]

/-- Decoding does nothing where nothing was announced. -/
theorem received_of_post {a : Arrival} (h : a.verb = .post) (body : Bytes) :
    site.received a body = (a.client.withPayload body).decode site.ring := by
  rw [received]
  split
  · rfl
  · next hplain =>
    have huntransformed : ¬(a.client.withPayload body).isTransformed = true := by
      intro htransformed
      have hclient : a.client.isTransformed = true := htransformed
      exact hplain (by simp [h, hclient])
    rw [Envelope.decode, if_neg huntransformed]
    rfl

theorem bodyOf_of_ne_post {a : Arrival} (h : a.verb ≠ .post) (body : Bytes) :
    site.bodyOf a body = body := by
  rw [bodyOf, received_of_ne_post h]

theorem bodyOf_of_decode {a : Arrival} (h : a.verb = .post) {body data : Bytes}
    (hdecode : (a.client.withPayload body).decode site.ring = .done data) :
    site.bodyOf a body = data := by
  rw [bodyOf, received_of_post h, hdecode]

theorem bodyOf_of_not_decode {a : Arrival} {body : Bytes}
    (hdecode : ∀ data, (a.client.withPayload body).decode site.ring ≠ .done data) :
    site.bodyOf a body = body := by
  by_cases hpost : a.verb = .post
  · rw [bodyOf, received_of_post hpost]
    split
    · next data hdone => exact absurd hdone (hdecode data)
    · rfl
  · exact bodyOf_of_ne_post hpost body

/-- With a modulus there is always something to hand to the handler. -/
theorem exists_opened (hsize : site.ring.rsa.size ≠ 0) (a : Arrival) (i : Instance σ) :
    ∃ log, site.opened a i = .ok (meet a (site.bodyOf a i.exchange.body) i, log) := by
  -- Only a body that is decoded could crash the request, and decoding does not crash here.
  have hreceived : (∃ data, site.received a i.exchange.body = .done data) ∨
      ∃ g, site.received a i.exchange.body = .degraded g := by
    by_cases hpost : a.verb = .post
    · rw [received_of_post hpost]
      exact (Envelope.decode_of_size_ne_zero hsize _).imp_right fun ⟨_, hg⟩ => ⟨_, hg⟩
    · exact .inl ⟨_, received_of_ne_post hpost _⟩
  rw [opened, bodyOf]
  rcases hreceived with ⟨data, hdone⟩ | ⟨g, hdegraded⟩
  · rw [hdone]
    exact ⟨_, rfl⟩
  · rw [hdegraded]
    exact ⟨_, rfl⟩

/-- The instance that a request got is the one on which its handler is run, with the request
attached to it. -/
theorem invoked?_of_obtained (hsize : site.ring.rsa.size ≠ 0) {r : Request} {s s' : State σ}
    {i : Instance σ} (hobtained : site.obtained r s = (.ok i, s')) (worker : Nat) :
    site.invoked? r worker s = some (meet (site.arrive r).1 (site.bodyOf (site.arrive r).1 r.body)
      (site.attach (site.target r.path) r (s'.drawTag worker).1 i)) := by
  obtain ⟨log, hopened⟩ := exists_opened hsize (site.arrive r).1
    (site.attach (site.target r.path) r (s'.drawTag worker).1 i)
  have hbody : (site.attach (site.target r.path) r (s'.drawTag worker).1 i).exchange.body =
    r.body := rfl
  rw [hbody] at hopened
  simp only [invoked?, hobtained, met?, hopened]

/-- A request to a type whose instances can be built gets its handler run, on the body above. -/
theorem exists_invoked (hsize : site.ring.rsa.size ≠ 0) {r : Request} {x : σ}
    {s : State σ}
    (hfresh : (site.target r.path).handlerType.behaviour.fresh s.constructions.attempts = .ok x)
    (worker : Nat) :
    ∃ i, site.invoked? r worker s = some i ∧
      i.exchange.body = site.bodyOf (site.arrive r).1 r.body ∧
      i.exchange.envelope = (site.arrive r).1.client := by
  obtain ⟨i, s', hobtained⟩ := exists_obtained hfresh
  exact ⟨_, invoked?_of_obtained hsize hobtained worker, rfl, rfl⟩

/-- The handler of a `POST` request that carries what a client encoded meets the client's data and
the client's description of it. Every other body reaches the handler as it was received. -/
theorem handler_meets (hpair : site.ring.rsa.IsPair) (s : State σ) (r : Request) (worker : Nat)
    {x : σ}
    (hfresh : (site.target r.path).handlerType.behaviour.fresh s.constructions.attempts = .ok x) :
    ∃ i, site.invoked? r worker s = some i ∧
      ((site.handle r worker).run s).1.notes = (site.outcome r i).notes ∧
      (∀ (data : Bytes) (chain : String) (kind : Compression) (minSize : Nat) (d d' : Draws)
        (e : Envelope) (h : Headers), data.length ≤ maxUnpacked →
        chain.toList.count 'c' ≤ 1 →
        (Envelope.encode site.ring.clientRing data chain kind minSize).run d = (.done e, d') →
        h.IsPlain → r.verb = .post → r.headers = e.writeHeaders h → r.body = e.payload →
        i.exchange.body = data ∧ i.exchange.envelope = e.withPayload []) ∧
      (r.verb ≠ .post → i.exchange.body = r.body) ∧
      (∀ failure, Envelope.ofHeaders r.headers = .error failure → i.exchange.body = r.body) ∧
      ∀ client, Envelope.ofHeaders r.headers = .ok client →
        (∀ data, (client.withPayload r.body).decode site.ring ≠ .done data) →
        i.exchange.body = r.body := by
  have hring := KeyRing.clientRing_openedBy hpair
  have hsize : site.ring.rsa.size ≠ 0 := hring.rsa.size_pos.ne'
  obtain ⟨i, hinvoked, hbody, henvelope⟩ := exists_invoked hsize hfresh worker
  refine ⟨i, hinvoked, (response_of_invoked hinvoked).2, ?_, ?_, ?_, ?_⟩
  · intro data chain kind minSize d d' e h hdata hone hencode hplain hpost hheaders hpayload
    have hportable := Envelope.isPortable_of_encode hdata hencode
    have hread : Envelope.ofHeaders r.headers = .ok (e.withPayload []) := by
      rw [hheaders, Envelope.ofHeaders_writeHeaders hportable hplain]
    have hclient := arrive_client_of_ok site hread
    refine ⟨?_, henvelope.trans hclient⟩
    rw [hbody]
    refine bodyOf_of_decode ((arrive_verb site r).trans hpost) ?_
    rw [hclient, hpayload]
    exact Envelope.decode_of_encode hring hdata hone hencode
  · intro hverb
    rw [hbody]
    exact bodyOf_of_ne_post (by rwa [arrive_verb]) r.body
  · intro failure hfailure
    rw [hbody]
    by_cases hpost : r.verb = .post
    · refine bodyOf_of_decode ((arrive_verb site r).trans hpost) ?_
      rw [arrive_client_of_error site hfailure]
      rfl
    · exact bodyOf_of_ne_post (by rwa [arrive_verb]) r.body
  · intro client hclient hdecode
    rw [hbody]
    refine bodyOf_of_not_decode ?_
    rwa [arrive_client_of_ok site hclient]

/-- The request with which a client posts an envelope. -/
def posted (e : Envelope) : Request where
  method := "POST"
  headers := e.writeHeaders .empty
  body := e.payload

theorem handler_meets_greetingSite :
    ∃ e d', (Envelope.encode greetingSite.ring.clientRing [104, 105] "ch" .lz4 0).run ⟨id, 0⟩ =
        (.done e, d') ∧
      ∃ i, greetingSite.invoked? (posted e) 0 (greetingSite.initial ⟨id, 0⟩) = some i ∧
        i.exchange.body = [104, 105] ∧ i.exchange.envelope = e.withPayload [] := by
  have hpair : greetingSite.ring.rsa.IsPair := RsaKeys.isPair_mersennePair
  have hlength : ([104, 105] : Bytes).length ≤ maxUnpacked := by decide
  have hchain : ∀ c ∈ "ch".toList, c ∈ ['a', 'b', 'c', 'r', 'h'] := by simp
  have hone : "ch".toList.count 'c' ≤ 1 := by simp
  obtain ⟨e, d', hencode⟩ := Envelope.exists_encode (KeyRing.clientRing_openedBy hpair)
    (by decide +kernel) RsaKeys.size_mersennePair.ge hlength hchain .lz4 0 ⟨id, 0⟩
  have hfresh (n : Nat) :
      (greetingSite.target (posted e).path).handlerType.behaviour.fresh n = .ok 0 := by
    rw [handlerType_target_greetingSite]
    rfl
  have hverb : Verb.ofMethod "POST" = .post := by decide +kernel
  obtain ⟨i, hinvoked, -, hmeets, -⟩ :=
    handler_meets hpair (greetingSite.initial ⟨id, 0⟩) (posted e) 0 (hfresh _)
  exact ⟨e, d', hencode, i, hinvoked, hmeets [104, 105] "ch" .lz4 0 ⟨id, 0⟩ d' e .empty hlength
    hone hencode (fun _ _ => rfl) hverb rfl rfl⟩

end SealedHttp.Site
