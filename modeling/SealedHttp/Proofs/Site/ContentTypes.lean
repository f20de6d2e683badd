import Mathlib.Data.Bool.AllAny
import SealedHttp.Proofs.Body.ContentTypes
import SealedHttp.Proofs.Site.Lifecycle
import SealedHttp.Proofs.Site.Persistence

/-!
# Content types of responses

A handler that leaves the kind and the charset of its response alone answers in those of the
request. The content type of the response then says so, and whoever reads it gets the same kind and
the same charset again.
-/

namespace SealedHttp

/-- What a request says of its body: the kind, and the charset if it names one. -/
def Request.contentType (r : Request) : BodyKind × Option String :=
  ((r.header HeaderName.contentType).map BodyKind.parse).getD (.plain, none)

/-- The charset that goes with the kind of a request: the one it names, else the usual one. -/
def Request.charset (r : Request) : String :=
  r.contentType.2.getD r.contentType.1.defaultCharset

/-- Kind and charset of the response are those of another exchange. -/
structure Exchange.SameContentType (x y : Exchange) : Prop where
  contentKind_eq : y.contentKind = x.contentKind
  requestCharset_eq : y.requestCharset = x.requestCharset
  ownCharset_eq : y.ownCharset = x.ownCharset

/-! ## Requests -/

namespace Request

variable (r : Request)

theorem isReadable_of_header {name text : String} (h : r.header name = some text) :
    ∀ c ∈ text.toList, Text.IsReadable c := by
  obtain ⟨value, -, hvalue⟩ := Option.bind_eq_some_iff.mp h
  exact (Headers.text?_eq_some_iff.mp hvalue).2

theorem exists_parse_eq_contentType : ∃ s : String, BodyKind.parse s = r.contentType ∧
    ∀ c ∈ s.toList, Text.IsReadable c := by
  rw [contentType]
  cases h : r.header HeaderName.contentType with
  | none => exact ⟨"", by decide +kernel, by simp⟩
  | some s => exact ⟨s, rfl, r.isReadable_of_header h⟩

theorem isBare_charset : BodyKind.IsBare r.charset := by
  obtain ⟨s, hs, -⟩ := r.exists_parse_eq_contentType
  exact BodyKind.isBare_getD_of_parse hs

/-- The charset of a request can stand in a header, since it comes from one. -/
theorem isReadable_charset : ∀ c ∈ r.charset.toList, Text.IsReadable c := by
  obtain ⟨s, hs, hread⟩ := r.exists_parse_eq_contentType
  rw [charset, ← hs]
  cases hcharset : (BodyKind.parse s).2 with
  | none =>
    rw [Option.getD_none]
    cases (BodyKind.parse s).1 <;> exact List.all_iff_forall_prop.mp (by decide)
  | some name => exact fun c hc => hread c (BodyKind.mem_of_parse hcharset c hc)

theorem isReadable_headerValue :
    ∀ c ∈ (r.contentType.1.headerValue r.charset).toList, Text.IsReadable c := by
  have hmark : ∀ c ∈ BodyKind.charsetMark, Text.IsReadable c :=
    List.all_iff_forall_prop.mp (by decide)
  have hopening : ∀ c ∈ r.contentType.1.opening, Text.IsReadable c := by
    cases r.contentType.1 <;> exact List.all_iff_forall_prop.mp (by decide)
  intro c hc
  rw [BodyKind.toList_headerValue, List.mem_append, List.mem_append] at hc
  rcases hc with hc | hc | hc
  · exact hopening c hc
  · exact hmark c hc
  · exact r.isReadable_charset c hc

end Request

/-! ## Exchanges -/

namespace Exchange

/-- The response is in the kind and the charset of the request. -/
structure AnswersInKind (x : Exchange) (r : Request) : Prop where
  contentKind_eq : x.contentKind = r.contentType.1
  requestCharset_eq : x.requestCharset = r.contentType.2
  ownCharset_eq : x.ownCharset = none

/-- Attaching a request sets the kind, but no charset of the response. -/
theorem answersInKind_configure {x : Exchange} (hblank : x.reset = x) (context : RequestContext) :
    (x.configure context).AnswersInKind context.request := by
  have hnone : x.ownCharset = none := (congrArg ownCharset hblank).symm
  cases hheader : context.request.header HeaderName.contentType <;>
    constructor <;> simp [configure, Request.contentType, hheader, hnone]

theorem AnswersInKind.charset_eq {x : Exchange} {r : Request} (h : x.AnswersInKind r) :
    x.charset = r.charset := by
  rw [charset, h.ownCharset_eq, h.requestCharset_eq, h.contentKind_eq, Option.none_or]
  rfl

theorem AnswersInKind.of_same {x y : Exchange} {r : Request} (h : x.AnswersInKind r)
    (hsame : x.SameContentType y) : y.AnswersInKind r :=
  ⟨hsame.contentKind_eq.trans h.contentKind_eq,
    hsame.requestCharset_eq.trans h.requestCharset_eq, hsame.ownCharset_eq.trans h.ownCharset_eq⟩

end Exchange

namespace Site

variable {σ : Type} {site : Site σ} {s s' : State σ} {r : Request} {worker : Nat}

/-- Nothing of an earlier request is left on an instance that was obtained. -/
theorem reset_of_obtained (h : site.IsTidy s) {i : Instance σ}
    (hobtained : site.obtained r s = (.ok i, s')) : i.exchange.reset = i.exchange := by
  cases hpools : site.usePools with
  | false =>
    rw [obtained, obtain?_of_no_pools hpools, constructions_count] at hobtained
    rcases hfresh : (site.target r.path).handlerType.behaviour.fresh s.constructions.attempts with
      reason | x
    · rw [HandlerType.create_of_error hfresh] at hobtained
      cases hobtained
    · rw [HandlerType.create_of_fresh hfresh] at hobtained
      cases hobtained
      rfl
  | true =>
    rcases obtained_cases hpools h rfl with
      ⟨_, _, _, hfailed, -⟩ | ⟨j, q, s₁, hok, htakes, -, -⟩
    · rw [hfailed] at hobtained
      cases hobtained
    · rw [hok] at hobtained
      cases hobtained
      exact htakes.isBlank (h.pool _)

theorem answersInKind_of_opened {a : Arrival} {i j : Instance σ} {log : List LogLine}
    (hopened : site.opened a i = .ok (j, log)) (h : i.exchange.AnswersInKind r) :
    j.exchange.AnswersInKind r := by
  rw [opened] at hopened
  split at hopened <;> cases hopened <;>
    exact ⟨h.contentKind_eq, h.requestCharset_eq, h.ownCharset_eq⟩

theorem answersInKind_of_invoked (h : site.IsTidy s) {i : Instance σ}
    (hinvoked : site.invoked? r worker s = some i) : i.exchange.AnswersInKind r := by
  rw [invoked?] at hinvoked
  rcases hobtained : site.obtained r s with ⟨failure | j, s'⟩
  · rw [hobtained] at hinvoked
    cases hinvoked
  · have hkind : (site.attach (site.target r.path) r (s'.drawTag worker).1 j).exchange.AnswersInKind
        r := Exchange.answersInKind_configure (reset_of_obtained h hobtained) _
    rcases hopened : site.opened (site.arrive r).1
        (site.attach (site.target r.path) r (s'.drawTag worker).1 j) with reason | ⟨k, log⟩
    · simp only [hobtained, met?, hopened] at hinvoked
      cases hinvoked
    · simp only [hobtained, met?, hopened] at hinvoked
      cases hinvoked
      exact answersInKind_of_opened hopened hkind

/-- The reply to a request, made of an exchange in the kind and the charset of the request. -/
theorem parse_contentType_reply {x : Exchange} (h : x.AnswersInKind r) (a : Arrival)
    (e : Envelope) :
    ((reply a x e).headers.getText? HeaderName.contentType).map BodyKind.parse =
      some (r.contentType.1, some r.charset) := by
  have hread := r.isReadable_headerValue
  rw [← h.contentKind_eq, ← h.charset_eq] at hread
  rw [Headers.getText?, get?_contentType_reply (Headers.isLegal_ofText hread), Option.bind_some,
    Headers.text?_ofText hread, Option.map_some, h.charset_eq, h.contentKind_eq,
    r.isBare_charset.parse_headerValue]

/-- A content type gives back the kind and the charset that it was made of just if the charset is
not empty and holds no separator, and those that a content type gives are such. Hence a handler that
leaves both alone answers with a content type that gives the kind and the charset of the request. -/
theorem contentType_roundTrip :
    (∀ (k : BodyKind) (charset : String),
      BodyKind.parse (k.headerValue charset) = (k, some charset) ↔
        charset ≠ "" ∧ ∀ c ∈ charset.toList, c ∉ BodyKind.separators) ∧
    (∀ (s : String) (k : BodyKind) (c : Option String), BodyKind.parse s = (k, c) →
      BodyKind.parse (k.headerValue (c.getD k.defaultCharset)) =
        (k, some (c.getD k.defaultCharset))) ∧
    ∀ (σ : Type) (site : Site σ) (draws : Draws) (s : State σ) (flights : List (Flight σ))
      (r : Request) (worker : Nat) (i : Instance σ),
      site.Steps (site.initial draws, []) (s, flights) → site.invoked? r worker s = some i →
      i.exchange.SameContentType (site.outcome r i).exchange →
      ((site.handle r worker).run s).1.response = .internalError ∨
        (((site.handle r worker).run s).1.response.headers.getText? HeaderName.contentType).map
          BodyKind.parse = some (r.contentType.1, some r.charset) := by
  refine ⟨?_, ?_, ?_⟩
  · intro k charset
    rw [BodyKind.parse_headerValue_eq_iff]
    exact ⟨fun h => ⟨h.ne_empty, h.notMem⟩, fun h => ⟨h.1, h.2⟩⟩
  · intro s k c h
    exact (BodyKind.isBare_getD_of_parse h).parse_headerValue k
  · intro σ site draws s flights r worker i hsteps hinvoked hsame
    have hkind := answersInKind_of_invoked (hsteps.isTidy (isTidy_initial site draws)) hinvoked
    rw [(response_of_invoked hinvoked).1]
    refine (response_conclude_cases site _ _ _ _).imp_right ?_
    rintro ⟨e, hreply⟩
    rw [hreply]
    exact parse_contentType_reply (hkind.of_same hsame) _ e

/-- A value posted in capitals and quotes, without any transform. -/
def quotedRequest : Request where
  method := "POST"
  headers := ⟨[(HeaderName.contentType, Bytes.ofText "Application/JSON; charset=\"ISO-8859-1\"")]⟩
  body := [55]

theorem contentType_roundTrip_quotedRequest :
    BodyKind.parse (BodyKind.cbor.headerValue "é-8") = (.cbor, some "é-8") ∧
    BodyKind.parse "text/html;charset= ;" = (.plain, none) ∧
    BodyKind.parse (BodyKind.plain.headerValue "UTF-8") = (.plain, some "UTF-8") ∧
    ((greetingSite.handle quotedRequest 0).run (greetingSite.initial ⟨id, 0⟩)).1.response ≠
        .internalError ∧
      (((greetingSite.handle quotedRequest 0).run
        (greetingSite.initial ⟨id, 0⟩)).1.response.headers.getText? HeaderName.contentType).map
          BodyKind.parse = some (.json, some "ISO-8859-1") := by
  obtain ⟨hexact, hnormal, hsite⟩ := contentType_roundTrip
  have hne : ((greetingSite.handle quotedRequest 0).run
      (greetingSite.initial ⟨id, 0⟩)).1.response ≠ .internalError := by decide +kernel
  have htype : quotedRequest.contentType = (.json, some "ISO-8859-1") := by decide +kernel
  have hblank : BodyKind.parse "text/html;charset= ;" = (.plain, none) := by decide +kernel
  have hopens : greetingSite.ring.rsa.size ≠ 0 := by decide +kernel
  have hfresh (n : Nat) :
      (greetingSite.target quotedRequest.path).handlerType.behaviour.fresh n = .ok 0 := by
    rw [handlerType_target_greetingSite]
    rfl
  obtain ⟨i, hinvoked, -⟩ :=
    exists_invoked hopens (s := greetingSite.initial ⟨id, 0⟩) (hfresh _) 0
  have hsame : i.exchange.SameContentType (greetingSite.outcome quotedRequest i).exchange := by
    have hverb : quotedRequest.verb = .post := by decide +kernel
    rw [outcome, handlerType_target_greetingSite, hverb]
    exact ⟨rfl, rfl, rfl⟩
  have hforeign : ∀ c ∈ "é-8".toList, c ∉ BodyKind.separators :=
    List.all_iff_forall_prop.mp (by decide)
  have husual := hnormal _ _ _ hblank
  rw [Option.getD_none, show BodyKind.plain.defaultCharset = "UTF-8" from rfl] at husual
  refine ⟨(hexact _ _).mpr ⟨by decide, hforeign⟩, hblank, husual, hne, ?_⟩
  have hresponse := (hsite Nat greetingSite _ _ [] _ 0 i .refl hinvoked hsame).resolve_left hne
  rwa [Request.charset, htype] at hresponse

end Site
end SealedHttp
