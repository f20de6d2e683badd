import SealedHttp.Proofs.Workers.Events

/-!
# Jobs and counters

The counters of a crew agree with what its workers do, and every job that was submitted is queued,
in the hands of one worker, or done. As long as workers can be started, a worker will come for every
queued job: however notifications and new jobs cross with workers that give up waiting, somebody is
awake.
-/

namespace SealedHttp

variable {ι : Type}

namespace Worker

def isWaiting (w : Worker ι) : Bool :=
  match w.activity with
  | .waiting => true
  | _ => false

theorem isWaiting_iff {w : Worker ι} : w.isWaiting ↔ w.activity = .waiting := by
  rw [isWaiting]
  split <;> simp_all

/-- The job that a worker is at. -/
def job? (w : Worker ι) : Option ι :=
  match w.activity with
  | .running job => some job
  | _ => none

end Worker

namespace Crew

variable {c : Crew ι} {events : List (Event ι)} {ws ws' : List (Worker ι)}

/-! ## What becomes of the jobs -/

/-- The books of a crew, as far as they concern the workers `ws`: those that wait are idle or
notified, and what was submitted was started or is in the queue. What was started is done or in the
hands of one of the workers. -/
structure Accounts (events : List (Event ι)) (c : Crew ι) (ws : List (Worker ι)) : Prop where
  waiting_eq : ws.countP Worker.isWaiting = c.idle + c.notified
  started_eq : c.started.map Prod.fst ++ c.queue = events.filterMap Event.submitted?
  running_perm : (c.started.map Prod.fst).Perm
    (events.filterMap Event.finished? ++ ws.filterMap Worker.job?)

namespace Accounts

theorem perm (h : Accounts events c ws) (hperm : ws.Perm ws') : Accounts events c ws' where
  waiting_eq := hperm.countP_eq _ ▸ h.waiting_eq
  started_eq := h.started_eq
  running_perm := h.running_perm.trans ((hperm.filterMap _).append_left _)

/-- A new worker is neither waiting nor at a job. -/
theorem of_cons_starting {id : Nat} (h : Accounts events c (⟨id, .starting⟩ :: ws)) :
    Accounts events c ws := ⟨h.waiting_eq, h.started_eq, h.running_perm⟩

theorem enqueue (h : Accounts events c ws) (canSpawn : Except String Unit) (job : ι) :
    Accounts (events ++ [.execute canSpawn job]) (c.enqueue job) ws where
  waiting_eq := h.waiting_eq
  started_eq := by
    rw [List.filterMap_append, ← h.started_eq, List.append_assoc]
    rfl
  running_perm := by
    rw [List.filterMap_append, List.filterMap_cons_none rfl, List.filterMap_nil, List.append_nil]
    exact h.running_perm

theorem execute (h : Accounts events c c.live) (canSpawn : Except String Unit) (job : ι) :
    Accounts (events ++ [.execute canSpawn job]) (c.execute canSpawn job).2
      (c.execute canSpawn job).2.live := by
  obtain ⟨hwaiting, hstarted, hrunning⟩ := h.enqueue canSpawn job
  rw [execute_eq]
  split
  · split
    · refine Accounts.perm ?_ (List.perm_append_singleton _ _).symm
      exact ⟨hwaiting, hstarted, hrunning⟩
    · exact ⟨hwaiting, hstarted, hrunning⟩
  · split
    · refine ⟨?_, hstarted, hrunning⟩
      dsimp only [notify, Crew.enqueue] at hwaiting ⊢
      omega
    · exact ⟨hwaiting, hstarted, hrunning⟩

/-- A worker that the books leave out takes the oldest job, or waits. -/
theorem takeNext {id : Nat} {a : Activity ι} (h : Accounts events c (c.others id))
    (hmanned : c.IsManned) (hw : ⟨id, a⟩ ∈ c.live) :
    Accounts events (c.takeNext id) (c.takeNext id).live := by
  have hset := hmanned.live_perm_setActivity hw
  rw [Crew.takeNext]
  split
  · next job rest hqueue =>
    refine Accounts.perm ?_ (hset _).symm
    refine ⟨h.waiting_eq, ?_, ?_⟩
    · rw [← h.started_eq, hqueue, List.map_append, List.append_assoc]
      rfl
    · rw [List.filterMap_cons_some (f := Worker.job?) rfl, List.map_append]
      exact (List.perm_append_singleton _ _).trans
        ((h.running_perm.cons job).trans List.perm_middle.symm)
  · refine Accounts.perm ?_ (hset _).symm
    refine ⟨?_, h.started_eq, h.running_perm⟩
    rw [List.countP_cons_of_pos rfl, h.waiting_eq]
    exact Nat.add_right_comm _ _ _

theorem start (h : Accounts events c c.live) (hmanned : c.IsManned) {id : Nat}
    (hw : ⟨id, .starting⟩ ∈ c.live) :
    Accounts (events ++ [.start id]) (c.takeNext id) (c.takeNext id).live := by
  obtain ⟨hwaiting, hstarted, hrunning⟩ := (h.perm (hmanned.live_perm hw)).of_cons_starting
  refine Accounts.takeNext ⟨hwaiting, ?_, ?_⟩ hmanned hw
  · simpa [List.filterMap_cons, Event.submitted?] using hstarted
  · simpa [List.filterMap_cons, Event.finished?] using hrunning

theorem finish (h : Accounts events c c.live) (hmanned : c.IsManned) {id : Nat} {job : ι}
    (hw : ⟨id, .running job⟩ ∈ c.live) :
    Accounts (events ++ [.finish id job]) (c.takeNext id) (c.takeNext id).live := by
  obtain ⟨hwaiting, hstarted, hrunning⟩ := h.perm (hmanned.live_perm hw)
  refine Accounts.takeNext ⟨hwaiting, ?_, ?_⟩ hmanned hw
  · simpa [List.filterMap_cons, Event.submitted?] using hstarted
  · simpa [List.filterMap_cons, Event.finished?, Worker.job?] using hrunning

theorem wake (h : Accounts events c c.live) (hmanned : c.IsManned) {id : Nat}
    (hw : ⟨id, .waiting⟩ ∈ c.live) (timedOut : Bool) :
    Accounts (events ++ [.wake id timedOut]) (c.wake id timedOut) (c.wake id timedOut).live := by
  have hsame : Accounts (events ++ [.wake id timedOut]) c c.live := by
    refine ⟨h.waiting_eq, ?_, ?_⟩
    · simpa [List.filterMap_cons, Event.submitted?] using h.started_eq
    · simpa [List.filterMap_cons, Event.finished?] using h.running_perm
  obtain ⟨hwaiting, hstarted, hrunning⟩ := hsame.perm (hmanned.live_perm hw)
  rw [List.countP_cons_of_pos rfl] at hwaiting
  rw [wake_eq]
  split
  · have hothers : Accounts (events ++ [.wake id timedOut]) c.hear (c.hear.others id) := by
      refine ⟨?_, hstarted, hrunning⟩
      change (c.others id).countP Worker.isWaiting = c.idle + (c.notified - 1)
      omega
    exact hothers.takeNext (hmanned.congr (sameWorkers_hear c)) hw
  · split
    · refine ⟨?_, hstarted, hrunning⟩
      change (c.others id).countP Worker.isWaiting = c.idle - 1 + c.notified
      omega
    · exact hsame

theorem after (h : Accounts events c c.live) (hmanned : c.IsManned) {e : Event ι}
    (he : e.IsEnabled c) : Accounts (events ++ [e]) (c.after e) (c.after e).live := by
  cases e with
  | execute canSpawn job => exact h.execute canSpawn job
  | start id => exact h.start hmanned he
  | finish id job => exact h.finish hmanned he
  | wake id timedOut => exact h.wake hmanned he timedOut

end Accounts

theorem Run.accounts {maxWorkers : Nat} (hrun : Run (new maxWorkers) events c) :
    Accounts events c c.live := by
  induction hrun with
  | nil => exact ⟨rfl, rfl, .nil⟩
  | snoc hrun hstep ih =>
    obtain ⟨he, rfl⟩ := hstep
    exact ih.after (Run.isManned hrun (isManned_new maxWorkers)) he

/-! ## Whether anyone comes for a job -/

/-- A worker was notified, or one is on its way or busy. It will look into the queue. -/
def IsAwake (c : Crew ι) : Prop := 0 < c.notified ∨ ∃ w ∈ c.live, w.activity ≠ .waiting

/-- A crew in which nobody is idle is awake if it has any workers. -/
theorem isAwake_of_idle_eq_zero (hmanned : c.IsManned) (haccounts : Accounts events c c.live)
    (hworkers : 0 < c.workers) (hidle : c.idle = 0) : c.IsAwake := by
  by_contra hasleep
  rw [IsAwake, not_or, not_exists] at hasleep
  have hall : ∀ w ∈ c.live, w.isWaiting := by
    intro w hw
    by_contra hbusy
    exact hasleep.2 w ⟨hw, fun hwaiting => hbusy (Worker.isWaiting_iff.mpr hwaiting)⟩
  have hwaiting := haccounts.waiting_eq
  rw [List.countP_eq_length.mpr hall, ← hmanned.workers_eq] at hwaiting
  omega

theorem isAwake_execute (hmanned : c.IsManned) (haccounts : Accounts events c c.live)
    (hlimit : 0 < c.limit) (job : ι) : (c.execute (.ok ()) job).2.IsAwake := by
  rw [execute_eq]
  split
  · exact .inr ⟨_, List.mem_append_right _ (List.mem_singleton_self _), nofun⟩
  · next hfull =>
    split
    · exact .inl (Nat.succ_pos _)
    · next hidle =>
      have hzero : c.idle = 0 := Nat.eq_zero_of_not_pos hidle
      have hworkers : c.limit ≤ c.workers := Nat.le_of_not_lt fun hroom => hfull ⟨hzero, hroom⟩
      exact isAwake_of_idle_eq_zero (c := c) hmanned haccounts
        (Nat.lt_of_lt_of_le hlimit hworkers) hzero

/-- Whoever takes its turn leaves the queue empty or is busy afterwards. -/
theorem isAwake_takeNext (hmanned : c.IsManned) {id : Nat} {a : Activity ι}
    (hw : ⟨id, a⟩ ∈ c.live) (hqueue : (c.takeNext id).queue ≠ []) : (c.takeNext id).IsAwake := by
  revert hqueue
  rw [takeNext]
  split
  · next job rest _ =>
    have hset := hmanned.live_perm_setActivity hw (.running job)
    exact fun _ => .inr ⟨⟨id, .running job⟩, hset.symm.subset List.mem_cons_self, by simp⟩
  · next hempty => exact fun hqueue => absurd hempty hqueue

theorem isAwake_wake (hmanned : c.IsManned) (hawake : c.queue ≠ [] → c.IsAwake) {id : Nat}
    (hw : ⟨id, .waiting⟩ ∈ c.live) (timedOut : Bool)
    (hqueue : (c.wake id timedOut).queue ≠ []) : (c.wake id timedOut).IsAwake := by
  revert hqueue
  rw [wake_eq]
  split
  · exact isAwake_takeNext (hmanned.congr (sameWorkers_hear c)) hw
  · next hnotified =>
    split
    · intro hqueue
      rcases hawake hqueue with hpos | ⟨w, hmem, hbusy⟩
      · omega
      · -- Whoever is awake is not the one who leaves.
        rcases List.mem_cons.mp ((hmanned.live_perm hw).subset hmem) with rfl | hother
        · exact absurd rfl hbusy
        · exact .inr ⟨w, hother, hbusy⟩
    · exact hawake

theorem isAwake_after (hmanned : c.IsManned) (haccounts : Accounts events c c.live)
    (hlimit : 0 < c.limit) (hawake : c.queue ≠ [] → c.IsAwake) {e : Event ι} (he : e.IsEnabled c)
    (hspawns : e.Spawns) (hqueue : (c.after e).queue ≠ []) : (c.after e).IsAwake := by
  cases e with
  | execute canSpawn job =>
    cases hspawns
    exact isAwake_execute hmanned haccounts hlimit job
  | start id => exact isAwake_takeNext hmanned he hqueue
  | finish id job => exact isAwake_takeNext hmanned he hqueue
  | wake id timedOut => exact isAwake_wake hmanned hawake he timedOut hqueue

theorem Run.isAwake {maxWorkers : Nat} (hrun : Run (new maxWorkers) events c)
    (hspawns : ∀ e ∈ events, e.Spawns) : c.queue ≠ [] → c.IsAwake := by
  induction hrun with
  | nil => exact fun hqueue => absurd rfl hqueue
  | snoc hrun hstep ih =>
    obtain ⟨he, rfl⟩ := hstep
    rw [List.forall_mem_append] at hspawns
    have hlimit := (Run.precedes hrun).limit_eq
    exact isAwake_after (Run.isManned hrun (isManned_new maxWorkers)) (Run.accounts hrun)
      (hlimit ▸ Nat.le_max_right maxWorkers 1) (ih hspawns.1) he
      (hspawns.2 _ (List.mem_singleton_self _))

/-! ## What counters go through -/

/-- The counters of a crew, as integers. -/
structure Tally where
  workers : Int
  idle : Int
  notified : Int

def tally (c : Crew ι) : Tally := ⟨c.workers, c.idle, c.notified⟩

/-- What becomes of integer counters when a worker takes its turn. -/
def turned (c : Crew ι) (t : Tally) : Tally :=
  if c.queue.isEmpty then { t with idle := t.idle + 1 } else t

/-- What becomes of integer counters in an event. They may fall below zero. -/
def Event.tallied (c : Crew ι) (t : Tally) : Event ι → Tally
  | execute canSpawn _ =>
    if c.idle = 0 ∧ c.workers < c.limit then
      match canSpawn with
      | .ok () => { t with workers := t.workers + 1 }
      | .error _ => t
    else if 0 < c.idle then { t with idle := t.idle - 1, notified := t.notified + 1 }
    else t
  | start _ => turned c t
  | finish _ _ => turned c t
  | wake _ timedOut =>
    if c.notified ≠ 0 then turned c { t with notified := t.notified - 1 }
    else if timedOut then { t with workers := t.workers - 1, idle := t.idle - 1 }
    else t

theorem tally_takeNext (c : Crew ι) (id : Nat) : (c.takeNext id).tally = turned c c.tally := by
  rw [takeNext, turned]
  split
  · next hqueue => simp [hqueue, tally, setActivity]
  · next hqueue => simp [hqueue, tally, setActivity]

/-- Nothing is taken from a counter that is zero: integers would do the same. -/
theorem tally_after (hmanned : c.IsManned) (haccounts : Accounts events c c.live) {e : Event ι}
    (he : e.IsEnabled c) : (c.after e).tally = e.tallied c c.tally := by
  cases e with
  | execute canSpawn job =>
    rw [after, execute_eq]
    simp only [Event.tallied]
    split
    · split
      · simp [tally, spawn, enqueue]
      · rfl
    · split
      · simp only [tally, notify, enqueue, Tally.mk.injEq, true_and]
        omega
      · rfl
  | start id => exact tally_takeNext c id
  | finish id job => exact tally_takeNext c id
  | wake id timedOut =>
    -- The worker that wakes up is counted.
    have hwaiting := haccounts.waiting_eq
    have hworkers := hmanned.workers_eq
    have hperm := hmanned.live_perm he
    rw [hperm.countP_eq, List.countP_cons_of_pos rfl] at hwaiting
    rw [hperm.length_eq, List.length_cons] at hworkers
    rw [after, wake_eq, Event.tallied]
    split
    · have hheard : c.hear.tally = { c.tally with notified := c.tally.notified - 1 } := by
        simp only [tally, hear, Tally.mk.injEq, true_and]
        omega
      rw [tally_takeNext, hheard]
      rfl
    · split
      · simp only [tally, leave, Tally.mk.injEq, and_true]
        omega
      · rfl

/-! ## From the start -/

/-- What holds of a crew of at most `maxWorkers` workers, or one if that is zero, after `events`. -/
structure IsConsistent (maxWorkers : Nat) (events : List (Event ι)) (c : Crew ι) : Prop where
  workers_eq : c.workers = c.live.length
  workers_le : c.workers ≤ max maxWorkers 1
  waiting_eq : c.live.countP Worker.isWaiting = c.idle + c.notified
  /-- No counter goes below zero in whatever comes next. -/
  tally_after : ∀ e : Event ι, e.IsEnabled c → (c.after e).tally = e.tallied c c.tally
  isAwake : (∀ e ∈ events, e.Spawns) → c.queue ≠ [] → c.IsAwake
  /-- Jobs are started in the order in which they were submitted, and the others are queued. -/
  started_eq : c.started.map Prod.fst ++ c.queue = events.filterMap Event.submitted?
  /-- What was started is done or in the hands of one worker. -/
  running_perm : (c.started.map Prod.fst).Perm
    (events.filterMap Event.finished? ++ c.live.filterMap Worker.job?)
  ids_nodup : c.ids.Nodup
  /-- The number of a worker that left is not given again. -/
  not_mem_ids : ∀ {later further : List (Event ι)} {c₁ c₂ : Crew ι}, Run c later c₁ →
    Run c₁ further c₂ → ∀ id ∈ c.ids, id ∉ c₁.ids → id ∉ c₂.ids

/-- In whatever order the critical sections of submitters and workers follow each other, the crew
remains consistent. -/
theorem isConsistent_of_run {maxWorkers : Nat} (hrun : Run (new maxWorkers) events c) :
    c.IsConsistent maxWorkers events := by
  have hmanned := hrun.isManned (isManned_new maxWorkers)
  have haccounts := hrun.accounts
  have hlimit : c.limit = max maxWorkers 1 := hrun.precedes.limit_eq
  constructor
  · exact hmanned.workers_eq
  · exact hlimit ▸ hmanned.workers_le
  · exact haccounts.waiting_eq
  · exact fun e he => tally_after hmanned haccounts he
  · exact hrun.isAwake
  · exact haccounts.started_eq
  · exact haccounts.running_perm
  · exact hmanned.ids_nodup
  · intro later further c₁ c₂ hlater hfurther id hid hleft hback
    have hlt : id < c₁.nextId :=
      Nat.lt_of_lt_of_le (hmanned.id_lt id hid) hlater.precedes.nextId_le
    rcases hfurther.precedes.mem_or_le id hback with hmem | hle
    · exact hleft hmem
    · exact Nat.not_lt_of_le hle hlt

/-- The only worker of a crew wakes up for no reason and goes on waiting, and is notified of a job
just when its time is out. -/
theorem isConsistent_of_run_lateNotification :
    ∃ c : Crew Nat, Run (new 0) [.execute (.ok ()) 7, .start 0, .finish 0 7, .wake 0 false,
        .execute (.ok ()) 8] c ∧
      c.queue = [8] ∧ c.IsAwake ∧ (c.after (.wake 0 true)).started = [(7, 0), (8, 0)] := by
  have hfirst : Run (new 0 : Crew Nat) [.execute (.ok ()) 7, .start 0] _ :=
    (Trace.nil.snoc ⟨trivial, rfl⟩).snoc ⟨by decide, rfl⟩
  have hwaiting : Run (new 0 : Crew Nat)
      [.execute (.ok ()) 7, .start 0, .finish 0 7, .wake 0 false] _ :=
    (hfirst.snoc ⟨by decide, rfl⟩).snoc ⟨by decide, rfl⟩
  have hrun : Run (new 0 : Crew Nat) [.execute (.ok ()) 7, .start 0, .finish 0 7, .wake 0 false,
      .execute (.ok ()) 8] _ := hwaiting.snoc ⟨trivial, rfl⟩
  refine ⟨_, hrun, rfl, ?_, rfl⟩
  exact (isConsistent_of_run hrun).isAwake (by simp [Event.Spawns]) nofun

end Crew
end SealedHttp
