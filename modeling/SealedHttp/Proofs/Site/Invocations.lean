import SealedHttp.Handling.Script
import SealedHttp.Proofs.Envelope.Headers
import SealedHttp.Site.Serving

/-!
# What a request comes to

A request either fails within the server or its handler is run on some instance. In the latter case
the response is what the site makes of the handler's outcome.
-/

namespace SealedHttp.Site

variable {σ : Type} {site : Site σ} {s : State σ} {r : Request} {worker : Nat}

@[simp] theorem arrive_verb (site : Site σ) (r : Request) : (site.arrive r).1.verb = r.verb := by
  rw [arrive]
  split <;> rfl

/-- What the client announced in headers that make sense. -/
theorem arrive_client_of_ok (site : Site σ) {e : Envelope}
    (h : Envelope.ofHeaders r.headers = .ok e) :
    (site.arrive r).1.client = e := by
  simp only [arrive, h]

theorem arrive_client_of_error (site : Site σ) {failure : EnvelopeError}
    (h : Envelope.ofHeaders r.headers = .error failure) :
    (site.arrive r).1.client = .plain [] := by
  simp only [arrive, h]

/-- The instance that is there for a request, and the state behind it. -/
def obtained (site : Site σ) (r : Request) (s : State σ) :
    Except InstanceError (Instance σ) × State σ :=
  (s.count (site.target r.path).key).obtain? site (site.target r.path)

/-- The instance as the handler of a request meets it, unless opening the body crashes. -/
def met? (site : Site σ) (r : Request) (tag : String) (i : Instance σ) : Option (Instance σ) :=
  match site.opened (site.arrive r).1 (site.attach (site.target r.path) r tag i) with
  | .error _ => none
  | .ok (i, _) => some i

/-- The instance on which the handler of a request is run, if that happens at all. -/
def invoked? (site : Site σ) (r : Request) (worker : Nat) (s : State σ) : Option (Instance σ) :=
  match site.obtained r s with
  | (.error _, _) => none
  | (.ok i, s) => site.met? r (s.drawTag worker).1 i

/-- What the handler of a request leaves behind when it is run on an instance. -/
def outcome (site : Site σ) (r : Request) (i : Instance σ) : Outcome σ :=
  Instance.invoke (site.target r.path).handlerType.behaviour r.verb i

/-! ## Books -/

/-- What a site keeps account of, apart from its instances. -/
structure Books where
  counters : Counters String
  tags : RequestTags
  draws : Draws

namespace State

def books (s : State σ) : Books := ⟨s.counters, s.tags, s.draws⟩

theorem books_setPool (s : State σ) (index : Option Nat) (p : InstancePool σ) :
    (s.setPool index p).books = s.books := by
  cases index <;> rfl

theorem books_obtain? (s : State σ) (site : Site σ) (t : Target σ) :
    (s.obtain? site t).2.books = s.books := by
  rw [obtain?]
  split
  · exact books_setPool s t.index _
  · rfl

theorem books_giveBack (s : State σ) (site : Site σ) (t : Target σ) (i : Instance σ) :
    (s.giveBack site t i).books = s.books := by
  rw [giveBack]
  split
  · exact books_setPool s t.index _
  · rfl

end State

/-- Obtaining an instance for a request counts the request and does nothing else to the books. -/
theorem books_of_obtained {result : Except InstanceError (Instance σ)} {s' : State σ}
    (h : site.obtained r s = (result, s')) :
    s'.books = (s.count (site.target r.path).key).books := by
  have hbooks := (s.count (site.target r.path).key).books_obtain? site (site.target r.path)
  rwa [← obtained, h] at hbooks

/-! ## Obtaining instances -/

theorem constructions_count (s : State σ) (key : String) :
    (s.count key).constructions = s.constructions := rfl

theorem obtain?_of_no_pools (h : site.usePools = false) (t : Target σ) (s : State σ) :
    s.obtain? site t =
      ((t.handlerType.create.run s.constructions).1,
        { s with constructions := (t.handlerType.create.run s.constructions).2 }) := by
  rw [State.obtain?, if_neg (by simp [h])]
  rfl

theorem obtain?_of_idle (h : site.usePools = true) {t : Target σ} {s : State σ} {i : Instance σ}
    {rest : List (Instance σ)} (hidle : (s.pool t.index).idle = i :: rest) :
    s.obtain? site t = (.ok i, s.setPool t.index { s.pool t.index with idle := rest }) := by
  have hacquire : (t.handlerType.acquire (s.pool t.index)).run s.constructions =
      ((.ok i, { s.pool t.index with idle := rest }), s.constructions) := by
    simp only [HandlerType.acquire, Pool.obtain?, hidle]
    rfl
  rw [State.obtain?, if_pos h, hacquire]
  cases t.index <;> rfl

theorem obtain?_of_empty (h : site.usePools = true) {t : Target σ} {s : State σ}
    (hidle : (s.pool t.index).idle = []) :
    s.obtain? site t =
      ((t.handlerType.create.run s.constructions).1,
        { s.setPool t.index (s.pool t.index) with
          constructions := (t.handlerType.create.run s.constructions).2 }) := by
  have hacquire : (t.handlerType.acquire (s.pool t.index)).run s.constructions =
      (((t.handlerType.create.run s.constructions).1, s.pool t.index),
        (t.handlerType.create.run s.constructions).2) := by
    simp only [HandlerType.acquire, Pool.obtain?, hidle]
    rfl
  rw [State.obtain?, if_pos h, hacquire]

/-- If an instance can be made right now, there is one for the request. -/
theorem exists_obtained {r : Request} {s : State σ} {x : σ}
    (h : (site.target r.path).handlerType.behaviour.fresh s.constructions.attempts = .ok x) :
    ∃ i s', site.obtained r s = (.ok i, s') := by
  rw [← constructions_count s (site.target r.path).key] at h
  rw [obtained]
  cases hpools : site.usePools with
  | false =>
    rw [obtain?_of_no_pools hpools, HandlerType.create_of_fresh h]
    exact ⟨_, _, rfl⟩
  | true =>
    rcases hidle : ((s.count (site.target r.path).key).pool (site.target r.path).index).idle with
      _ | ⟨i, rest⟩
    · rw [obtain?_of_empty hpools hidle, HandlerType.create_of_fresh h]
      exact ⟨_, _, rfl⟩
    · rw [obtain?_of_idle hpools hidle]
      exact ⟨_, _, rfl⟩

/-! ## Stages of serving -/

theorem handle_of_error {e : InstanceError} {s' : State σ}
    (h : site.obtained r s = (.error e, s')) :
    (site.handle r worker).run s =
      ({ response := .internalError
         log := [⟨.error, s!"{r.path} cannot be served: {e.message}"⟩] }, s') := by
  change (match site.obtained r s with
    | (.error e, s) => _
    | (.ok i, s) => site.serve (site.target r.path) r worker i s) = _
  rw [h]

theorem handle_of_ok {i : Instance σ} {s' : State σ} (h : site.obtained r s = (.ok i, s')) :
    (site.handle r worker).run s = (site.serve (site.target r.path) r worker i).run s' := by
  change (match site.obtained r s with
    | (.error e, s) => _
    | (.ok i, s) => site.serve (site.target r.path) r worker i s) = _
  rw [h]
  rfl

/-- The run of the handler on an instance that was obtained. -/
def processed (site : Site σ) (t : Target σ) (r : Request) (worker : Nat) (i : Instance σ)
    (s : State σ) : (Served × Instance σ) × Draws :=
  (site.process t.handlerType (site.arrive r).1
    (site.attach t r (s.drawTag worker).1 i)).run s.draws

theorem serve_run (site : Site σ) (t : Target σ) (r : Request) (worker : Nat) (i : Instance σ)
    (s : State σ) :
    (site.serve t r worker i).run s =
      ({ (site.processed t r worker i s).1.1 with
          log := (site.arrive r).2 ++
            requestLine r (site.attach t r (s.drawTag worker).1 i).exchange ::
              (site.processed t r worker i s).1.1.log },
        { (s.drawTag worker).2 with draws := (site.processed t r worker i s).2 }.giveBack site t
          (site.processed t r worker i s).1.2) := by
  rcases hprocessed : site.processed t r worker i s with ⟨⟨served, j⟩, d⟩
  rcases harrive : site.arrive r with ⟨a, warnings⟩
  rcases htag : s.drawTag worker with ⟨tag, s'⟩
  have hdraws : s'.draws = s.draws := congrArg (fun p => p.2.draws) htag.symm
  simp only [processed, harrive, htag, StateT.run] at hprocessed
  simp only [serve, StateT.run, harrive, htag, hdraws, hprocessed]

theorem process_of_error {t : HandlerType σ} {a : Arrival} {i : Instance σ} {reason : String}
    (h : site.opened a i = .error reason) (d : Draws) :
    (site.process t a i).run d = ((a.aborted reason, i), d) := by
  rw [process, h]
  rfl

theorem process_of_ok {t : HandlerType σ} {a : Arrival} {i j : Instance σ} {log : List LogLine}
    (h : site.opened a i = .ok (j, log)) (d : Draws) :
    (site.process t a i).run d =
      (({ ((site.conclude t.policy a (Instance.invoke t.behaviour a.verb j)).run d).1 with
            log := log ++
              ((site.conclude t.policy a (Instance.invoke t.behaviour a.verb j)).run d).1.log },
          (Instance.invoke t.behaviour a.verb j).handler),
        ((site.conclude t.policy a (Instance.invoke t.behaviour a.verb j)).run d).2) := by
  rw [process, h]
  rfl

theorem notes_conclude (site : Site σ) (policy : Policy) (a : Arrival) (o : Outcome σ) (d : Draws) :
    ((site.conclude policy a o).run d).1.notes = o.notes := by
  rw [conclude]
  split <;> rfl

/-! ## Responses -/

theorem handle_run_of_obtained {i : Instance σ} {s' : State σ}
    (h : site.obtained r s = (.ok i, s')) (worker : Nat) :
    ((site.handle r worker).run s).1.response =
        (site.processed (site.target r.path) r worker i s').1.1.response ∧
      ((site.handle r worker).run s).1.notes =
        (site.processed (site.target r.path) r worker i s').1.1.notes := by
  rw [handle_of_ok h, serve_run]
  exact ⟨rfl, rfl⟩

/-- Without an invocation the server is to blame. -/
theorem response_of_not_invoked (h : site.invoked? r worker s = none) :
    ((site.handle r worker).run s).1.response = .internalError := by
  rw [invoked?] at h
  rcases hobtained : site.obtained r s with ⟨failure | i, s'⟩
  · rw [handle_of_error hobtained]
  · rw [(handle_run_of_obtained hobtained worker).1]
    rw [hobtained] at h
    rcases hopened : site.opened (site.arrive r).1
        (site.attach (site.target r.path) r (s'.drawTag worker).1 i) with reason | ⟨j, log⟩
    · rw [processed, process_of_error hopened]
      rfl
    · simp only [met?, hopened] at h
      cases h

/-- With one, the response is made of the outcome, and what the handler noted is passed on. -/
theorem response_of_invoked {i : Instance σ} (h : site.invoked? r worker s = some i) :
    ((site.handle r worker).run s).1.response =
        ((site.conclude (site.target r.path).handlerType.policy (site.arrive r).1
          (site.outcome r i)).run s.draws).1.response ∧
      ((site.handle r worker).run s).1.notes = (site.outcome r i).notes := by
  rw [invoked?] at h
  rcases hobtained : site.obtained r s with ⟨failure | i₀, s'⟩
  · rw [hobtained] at h
    cases h
  · rw [hobtained] at h
    rcases hopened : site.opened (site.arrive r).1
        (site.attach (site.target r.path) r (s'.drawTag worker).1 i₀) with reason | ⟨j, log⟩
    · simp only [met?, hopened] at h
      cases h
    · simp only [met?, hopened] at h
      cases h
      obtain ⟨hresponse, hnotes⟩ := handle_run_of_obtained hobtained worker
      have hdraws : s'.draws = s.draws := congrArg Books.draws (books_of_obtained hobtained)
      rw [hresponse, hnotes, processed, process_of_ok hopened, arrive_verb, hdraws]
      exact ⟨rfl, notes_conclude _ _ _ _ _⟩

/-! ## A small site -/

theorem target_of_no_types (h : site.types = []) (path : String) :
    site.target path = site.fallbackTarget := by
  rw [target]
  split
  · rfl
  · split
    · rfl
    · next hserved => exact absurd hserved (by simp [h])

/-- A site without routes. Its only type greets, and echoes and counts what is posted to it. -/
def greetingSite : Site Nat where
  routes := .empty
  types := []
  fallback := {
    name := "Greeting"
    behaviour := Script.behaviour (some [.reset, .write [104, 105]]) (some [.echo, .count]) false }
  ring := Envelope.shortestRing

theorem handlerType_target_greetingSite (path : String) :
    (greetingSite.target path).handlerType = greetingSite.fallback := by
  rw [target_of_no_types rfl]
  rfl

/-- A request of a client that asks for a hybrid seal and hexadecimal armor. -/
def sealedRequest (method : String) : Request where
  method := method
  headers := ⟨[(HeaderName.originalEncrypt, Bytes.ofText "ch")]⟩

end SealedHttp.Site
