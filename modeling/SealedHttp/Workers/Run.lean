import SealedHttp.Workers.Crew

/-!
# Runs of a crew

Ways to drive a crew from outside: jobs are submitted while all earlier ones are held back, or
each once the one before has ended. Every run is made of the steps of the crew.
-/

namespace SealedHttp.Crew

variable {ι : Type}

def startAll (c : Crew ι) : Crew ι :=
  c.live.foldl (fun c w =>
    match w.activity with
    | .starting => c.takeNext w.id
    | _ => c) c

def finishRound (c : Crew ι) : Crew ι :=
  c.live.foldl (fun c w =>
    match w.activity with
    | .running _ => c.takeNext w.id
    | _ => c) c

def wakeAll (c : Crew ι) : Crew ι :=
  c.live.foldl (fun c w =>
    match w.activity with
    | .waiting => if c.notified = 0 then c else c.wake w.id false
    | _ => c) c

def finishRounds : (n : Nat) → Crew ι → Crew ι
  | 0, c => c
  | n + 1, c => finishRounds n c.finishRound

def finishAll (c : Crew ι) : Crew ι := c.finishRounds (c.queue.length + 1)

def submit (job : ι) (c : Crew ι) : Crew ι := (c.execute (.ok ()) job).2.startAll.wakeAll

/-- Submits jobs and holds all of them back; gives the states after each submission. -/
def submitHeld (jobs : List ι) (c : Crew ι) : List (Crew ι) :=
  match jobs with
  | [] => []
  | job :: rest =>
    let c := c.submit job
    c :: submitHeld rest c

/-- Submits each job once the one before has ended; gives the states after each submission. -/
def submitSerial (jobs : List ι) (c : Crew ι) : List (Crew ι) :=
  match jobs with
  | [] => []
  | job :: rest =>
    let c := c.submit job
    c :: submitSerial rest c.finishAll

def drain (c : Crew ι) : Crew ι :=
  c.live.foldl (fun c w => c.wake w.id true) c

/-- What the submitter of a job hears: the answer, or that there is none. -/
def reply {β : Type} (outcome : Except String β) : Except JobError β :=
  outcome.mapError fun _ => .canceled

end SealedHttp.Crew
