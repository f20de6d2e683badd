/-!
# Crews of workers

Jobs wait in a queue for workers, of which there is a limited number. A worker takes the oldest job
as long as there is one; then it waits, until it is notified of a new job or its time is out. Each
function of this module that changes a crew is one critical section.
-/

namespace SealedHttp

/-- Why a job gives no answer. -/
inductive JobError where
  | lockPoisoned
  | threadSpawn (reason : String)
  /-- The job crashed before it answered. -/
  | canceled
  deriving DecidableEq, Repr

def JobError.message : JobError → String
  | lockPoisoned => "mutex lock poisoned"
  | threadSpawn reason => "thread spawn failed: " ++ reason
  | canceled => "job was dropped before completing"

inductive Activity (ι : Type) where
  | starting
  | running (job : ι)
  | waiting
  deriving DecidableEq, Repr

structure Worker (ι : Type) where
  id : Nat
  activity : Activity ι
  deriving DecidableEq, Repr

structure Crew (ι : Type) where
  limit : Nat
  queue : List ι := []
  workers : Nat := 0
  /-- How many workers wait without being notified. -/
  idle : Nat := 0
  /-- How many workers were notified and have not woken up yet. -/
  notified : Nat := 0
  live : List (Worker ι) := []
  nextId : Nat := 0
  started : List (ι × Nat) := []
  deriving Repr

namespace Crew

variable {ι : Type}

/-- A crew without workers; it may have one even if the limit is zero. -/
def new (maxWorkers : Nat) : Crew ι := { limit := max maxWorkers 1 }

def spawn (c : Crew ι) : Crew ι :=
  { c with
    workers := c.workers + 1, live := c.live ++ [⟨c.nextId, .starting⟩], nextId := c.nextId + 1 }

def notify (c : Crew ι) : Crew ι :=
  { c with idle := c.idle - 1, notified := c.notified + 1 }

/-- Queues a job, and sees to it that some worker will take it. The environment decides whether a
worker can be started; if it cannot, its number is spent and the job remains in the queue. -/
def execute (canSpawn : Except String Unit) (job : ι) (c : Crew ι) :
    Except JobError Unit × Crew ι :=
  let c := { c with queue := c.queue ++ [job] }
  if c.idle = 0 ∧ c.workers < c.limit then
    match canSpawn with
    | .ok () => (.ok (), c.spawn)
    | .error reason => (.error (.threadSpawn reason), { c with nextId := c.nextId + 1 })
  else if 0 < c.idle then (.ok (), c.notify)
  else (.ok (), c)

def setActivity (id : Nat) (a : Activity ι) (c : Crew ι) : Crew ι :=
  { c with live := c.live.map fun w => if w.id = id then { w with activity := a } else w }

/-- A worker that has started, finished a job or been notified takes the oldest job, or waits. -/
def takeNext (id : Nat) (c : Crew ι) : Crew ι :=
  match c.queue with
  | job :: rest =>
    { (c.setActivity id (.running job)) with queue := rest, started := c.started ++ [(job, id)] }
  | [] => { (c.setActivity id .waiting) with idle := c.idle + 1 }

/-- A waiting worker wakes up: because it was notified, for no reason, or because its time is out.
In the last case it leaves unless some worker was notified. -/
def wake (id : Nat) (timedOut : Bool) (c : Crew ι) : Crew ι :=
  if c.notified ≠ 0 then takeNext id { c with notified := c.notified - 1 }
  else if timedOut then
    { c with workers := c.workers - 1, idle := c.idle - 1, live := c.live.filter (·.id ≠ id) }
  else c

/-- A step of the crew. Any worker may be the next to enter its critical section. -/
inductive Step : Crew ι → Crew ι → Prop where
  | execute (canSpawn : Except String Unit) (job : ι) (c : Crew ι) :
    Step c (c.execute canSpawn job).2
  | start (id : Nat) (c : Crew ι) (h : ⟨id, .starting⟩ ∈ c.live) : Step c (c.takeNext id)
  /-- Whether the job ended well or crashed makes no difference to the worker. -/
  | finish (id : Nat) (job : ι) (c : Crew ι) (h : ⟨id, .running job⟩ ∈ c.live) :
    Step c (c.takeNext id)
  | wake (id : Nat) (timedOut : Bool) (c : Crew ι) (h : ⟨id, .waiting⟩ ∈ c.live) :
    Step c (c.wake id timedOut)

end Crew
end SealedHttp
