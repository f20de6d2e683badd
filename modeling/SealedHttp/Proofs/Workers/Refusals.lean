import SealedHttp.Proofs.Workers.Consistency

/-!
# Refused jobs

A job is refused when it needs a new worker and none can be started. The counters are then as they
were, but the job has already joined the queue and is not taken out again: it keeps its place there,
and whoever empties the queue starts it.
-/

namespace SealedHttp.Crew

variable {ι : Type} {c c' : Crew ι} {events : List (Event ι)} {job : ι}
  {canSpawn : Except String Unit} {failure : JobError}

/-! ## Refusing -/

/-- Nothing but the environment makes a crew refuse a job, and only where a worker was wanted. -/
theorem execute_eq_error_iff :
    (c.execute canSpawn job).1 = .error failure ↔
      (c.idle = 0 ∧ c.workers < c.limit) ∧
        ∃ reason, canSpawn = .error reason ∧ failure = .threadSpawn reason := by
  unfold execute
  dsimp only
  split
  · next hwanted =>
    rw [and_iff_right hwanted]
    cases canSpawn with
    | ok => simp
    | error reason => simp [eq_comm]
  · next hwanted =>
    split <;> simp [hwanted]

/-- What is left of a refusal: a spent number and the job at the end of the queue. -/
theorem execute_of_refused (h : (c.execute canSpawn job).1 = .error failure) :
    (c.execute canSpawn job).2 = (c.enqueue job).spend := by
  obtain ⟨hwanted, reason, rfl, -⟩ := execute_eq_error_iff.mp h
  rw [execute_eq, if_pos hwanted]

/-! ## Emptying the queue -/

theorem mem_live_setActivity {id : Nat} {a : Activity ι} (hw : ⟨id, a⟩ ∈ c.live) (b : Activity ι) :
    ⟨id, b⟩ ∈ (c.setActivity id b).live :=
  List.mem_map.mpr ⟨⟨id, a⟩, hw, if_pos rfl⟩

/-- A worker that is on its way or busy may take its turn. -/
theorem exists_turn {id : Nat} {a : Activity ι} (hw : ⟨id, a⟩ ∈ c.live) (hbusy : a ≠ .waiting) :
    ∃ e, c.Enters e (c.takeNext id) := by
  cases a with
  | starting => exact ⟨.start id, hw, rfl⟩
  | running job => exact ⟨.finish id job, hw, rfl⟩
  | waiting => exact absurd rfl hbusy

/-- Turn by turn, one worker gets to any job in the queue, provided that nobody else comes in
between. -/
theorem exists_run_started {id : Nat} {a : Activity ι} {front behind : List ι}
    (hw : ⟨id, a⟩ ∈ c.live) (hbusy : a ≠ .waiting) (hqueue : c.queue = front ++ job :: behind) :
    ∃ events c', Run c events c' ∧ c'.started = c.started ++ (front ++ [job]).map (·, id) := by
  obtain ⟨e, hturn⟩ := exists_turn hw hbusy
  induction front generalizing c a e with
  | nil =>
    refine ⟨[e], _, Trace.nil.snoc hturn, ?_⟩
    rw [takeNext, hqueue]
    rfl
  | cons first front ih =>
    have hnext : c.takeNext id = { c.setActivity id (.running first) with
        queue := front ++ job :: behind, started := c.started ++ [(first, id)] } := by
      rw [takeNext, hqueue]
      rfl
    have hw' : ⟨id, .running first⟩ ∈ (c.takeNext id).live := by
      rw [hnext]
      exact mem_live_setActivity hw _
    obtain ⟨e', hturn'⟩ := exists_turn hw' (by simp)
    obtain ⟨events, c', hrun, hstarted⟩ := ih hw' (by simp) (by rw [hnext]) e' hturn'
    refine ⟨[e] ++ events, c', (Trace.nil.snoc hturn).append hrun, ?_⟩
    rw [hstarted, hnext]
    simp

/-- A worker that is started for another job gets to what was queued before that job. -/
theorem exists_run_of_wanted {front : List ι} (hwanted : c.idle = 0 ∧ c.workers < c.limit)
    (hqueue : c.queue = front ++ [job]) (other : ι) :
    ∃ later c', Run c (.execute (.ok ()) other :: later) c' ∧
      c'.started = c.started ++ (front ++ [job]).map (·, c.nextId) := by
  have hspawned : c.Enters (.execute (.ok ()) other) (c.enqueue other).spawn := by
    refine ⟨trivial, ?_⟩
    rw [after, execute_eq, if_pos hwanted]
  have hnew : ⟨c.nextId, .starting⟩ ∈ (c.enqueue other).spawn.live :=
    List.mem_append_right _ (List.mem_singleton_self _)
  have hqueue' : (c.enqueue other).spawn.queue = front ++ job :: [other] := by
    change c.queue ++ [other] = _
    rw [hqueue, List.append_assoc]
    rfl
  obtain ⟨later, c', hlater, hstarted⟩ := exists_run_started hnew (by simp) hqueue'
  exact ⟨later, c', (Trace.nil.snoc hspawned).append hlater, hstarted⟩

/-! ## What becomes of a refused job -/

/-- The crew `c` refused a job and became `c'`. It counts what it counted before, but the job is one
of those that are queued. -/
structure KeepsRefused (c : Crew ι) (job : ι) (c' : Crew ι) : Prop where
  workers_eq : c'.workers = c.workers
  idle_eq : c'.idle = c.idle
  notified_eq : c'.notified = c.notified
  live_eq : c'.live = c.live
  started_eq : c'.started = c.started
  queue_eq : c'.queue = c.queue ++ [job]
  /-- Whatever comes next, the job is started after those that were queued before it and before
  those that are submitted later, or is still waiting between them. -/
  started_later : ∀ {later : List (Event ι)} {c'' : Crew ι}, Run c' later c'' →
    c''.started.map Prod.fst ++ c''.queue =
      c.started.map Prod.fst ++ c.queue ++ job :: later.filterMap Event.submitted?
  /-- Once a worker can be started for another job, that worker may start the refused one. -/
  exists_run : ∀ other : ι, ∃ later c'', Run c' (.execute (.ok ()) other :: later) c'' ∧
    c''.started = c.started ++ (c.queue ++ [job]).map (·, c.nextId + 1)

/-- However a crew came to refuse a job, the job is not withdrawn. -/
theorem keepsRefused_of_run {maxWorkers : Nat} (hrun : Run (new maxWorkers) events c)
    (h : (c.execute canSpawn job).1 = .error failure) :
    (∃ reason, canSpawn = .error reason ∧ failure = .threadSpawn reason) ∧
      c.KeepsRefused job (c.execute canSpawn job).2 := by
  obtain ⟨hwanted, hreason⟩ := execute_eq_error_iff.mp h
  have hentered : c.Enters (.execute canSpawn job) (c.execute canSpawn job).2 := ⟨trivial, rfl⟩
  have hrefused := hrun.snoc hentered
  rw [execute_of_refused h] at hrefused ⊢
  refine ⟨hreason, rfl, rfl, rfl, rfl, rfl, rfl, ?_, fun other => ?_⟩
  · intro later c'' hlater
    -- The books count a refusal among the submissions.
    rw [(Run.accounts (hrefused.append hlater)).started_eq, List.filterMap_append,
      List.filterMap_append, hrun.accounts.started_eq, List.append_assoc]
    rfl
  · exact exists_run_of_wanted (c := (c.enqueue job).spend) hwanted rfl other

/-- While the only worker is busy, two jobs in a row are refused. The second worker starts both. -/
theorem keepsRefused_of_run_twice :
    ∃ c : Crew Nat, Run (new 2) [.execute (.ok ()) 5, .start 0, .execute (.error "no thread") 6] c ∧
      (c.execute (.error "no thread") 7).1 = .error (.threadSpawn "no thread") ∧
      ∃ later c', Run (c.execute (.error "no thread") 7).2 (.execute (.ok ()) 8 :: later) c' ∧
        c'.started = [(5, 0), (6, 3), (7, 3)] := by
  have hbusy : Run (new 2 : Crew Nat) [.execute (.ok ()) 5, .start 0] _ :=
    (Trace.nil.snoc ⟨trivial, rfl⟩).snoc ⟨by decide, rfl⟩
  have hrun : Run (new 2 : Crew Nat)
      [.execute (.ok ()) 5, .start 0, .execute (.error "no thread") 6] _ :=
    hbusy.snoc ⟨trivial, rfl⟩
  have hkeeps : KeepsRefused _ 7 (Crew.execute (.error "no thread") 7 _).2 :=
    (keepsRefused_of_run hrun rfl).2
  exact ⟨_, hrun, rfl, hkeeps.exists_run 8⟩

/-- A refusal does not leave the queue as it was, and the refused job may be the next to start. -/
theorem started_refused :
    ∃ c' c'' : Crew Nat, (new 1).execute (.error "no thread") 7 =
        (.error (.threadSpawn "no thread"), c') ∧
      c'.queue ≠ (new 1 : Crew Nat).queue ∧
      Run c' [.execute (.ok ()) 8, .start 1] c'' ∧ c''.started = [(7, 1)] ∧ c''.queue = [8] := by
  refine ⟨_, _, rfl, by decide, (Trace.nil.snoc ⟨trivial, rfl⟩).snoc ⟨by decide, rfl⟩, rfl, rfl⟩

end SealedHttp.Crew
