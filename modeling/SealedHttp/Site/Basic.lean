import SealedHttp.Accounting.Counters
import SealedHttp.Envelope.Sealing
import SealedHttp.Handling.HandlerType
import SealedHttp.Message.Response
import SealedHttp.Routing.Table

/-!
# Sites

A site has a table of routes, the handler types that they lead to and one type for everything
else. What changes while it serves is kept apart: pools, counters, tags and random draws.
-/

namespace SealedHttp

inductive LogLevel where
  | info
  | warn
  | error
  deriving DecidableEq, Repr

def LogLevel.name : LogLevel → String
  | info => "info"
  | warn => "warn"
  | error => "error"

structure LogLine where
  level : LogLevel
  text : String
  deriving DecidableEq, Repr

/-- What is given back for a request. -/
structure Served where
  response : Response
  log : List LogLine := []
  notes : List Note := []

structure Site (σ : Type) where
  /-- Routes lead to positions among the types. -/
  routes : Routes Nat
  types : List (HandlerType σ)
  fallback : HandlerType σ
  ring : KeyRing
  server : ServerInfo := {}
  usePools : Bool := false
  poolMaxIdle : Nat := defaultMaxIdle
  keepAlive : Bool := true

/-- What changes while requests are served. -/
structure Site.State (σ : Type) where
  pools : List (InstancePool σ)
  fallbackPool : InstancePool σ
  counters : Counters String := .empty
  tags : RequestTags := {}
  constructions : Constructions := {}
  draws : Draws

namespace Site

variable {σ : Type}

def ofSettings (s : Settings) (routes : Routes Nat) (types : List (HandlerType σ))
    (fallback : HandlerType σ) (ring : KeyRing) : Site σ where
  routes := routes
  types := types
  fallback := fallback
  ring := ring
  server := ⟨s.notFoundInfo, s.port⟩
  usePools := s.useObjectPool
  poolMaxIdle := s.poolMaxIdle
  keepAlive := s.keepAlive

def isRouted (site : Site σ) (index : Nat) : Bool := site.routes.entries.any (·.2 = index)

/-- The state in which nothing was served yet. The bound of the server goes for the types that it
knows of. -/
def initial (site : Site σ) (draws : Draws) : State σ where
  pools := site.types.mapIdx fun index t =>
    t.emptyPool (if site.isRouted index then site.poolMaxIdle else defaultMaxIdle)
  fallbackPool := site.fallback.emptyPool site.poolMaxIdle
  draws := draws

structure Target (σ : Type) where
  /-- The position of the type; the fallback has none. -/
  index : Option Nat
  handlerType : HandlerType σ
  /-- Where requests are counted: the route, or the name of the fallback. -/
  key : String
  params : List (String × String)

def fallbackTarget (site : Site σ) : Target σ := ⟨none, site.fallback, site.fallback.name, []⟩

def target (site : Site σ) (path : String) : Target σ :=
  match site.routes.resolve path with
  | .error _ => site.fallbackTarget
  | .ok r =>
    match site.types[r.served]? with
    | none => site.fallbackTarget
    | some t =>
      ⟨some r.served, t, r.pattern,
        r.params.map fun (name, value) => (Utf8.decodeLossy name, Utf8.decodeLossy value)⟩

namespace State

def pool (s : State σ) : Option Nat → InstancePool σ
  | none => s.fallbackPool
  | some index => (s.pools[index]?).getD s.fallbackPool

def setPool (s : State σ) (index : Option Nat) (p : InstancePool σ) : State σ :=
  match index with
  | none => { s with fallbackPool := p }
  | some index => { s with pools := s.pools.set index p }

def count (s : State σ) (key : String) : State σ := { s with counters := (s.counters.add key 1).2 }

def drawTag (s : State σ) (worker : Nat) : String × State σ :=
  let (tag, tags) := s.tags.next worker
  (tag, { s with tags })

/-- Gets an instance from the pool, or a new one if pools are not in use. -/
def obtain? (s : State σ) (site : Site σ) (t : Target σ) :
    Except InstanceError (Instance σ) × State σ :=
  if site.usePools then
    let ((i, p), constructions) := (t.handlerType.acquire (s.pool t.index)).run s.constructions
    (i, { s.setPool t.index p with constructions })
  else
    let (i, constructions) := t.handlerType.create.run s.constructions
    (i, { s with constructions })

def giveBack (s : State σ) (site : Site σ) (t : Target σ) (i : Instance σ) : State σ :=
  if site.usePools then s.setPool t.index (t.handlerType.release i (s.pool t.index)).2 else s

end State
end Site
end SealedHttp
