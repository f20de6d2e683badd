import Mathlib.Data.List.Nodup
import SealedHttp.Proofs.Traces
import SealedHttp.Workers.Crew

/-!
# Crews at work

Submitters and workers enter their critical sections in any order. Whatever the order, a crew knows
how many workers it has, which are no more than its limit, and gives no number to two of them.
-/

namespace SealedHttp.Crew

variable {ι : Type} {c c' c'' : Crew ι}

/-! ## Events -/

/-- One critical section, of a submitter or of the worker with the given number. -/
inductive Event (ι : Type) where
  | execute (canSpawn : Except String Unit) (job : ι)
  | start (id : Nat)
  | finish (id : Nat) (job : ι)
  | wake (id : Nat) (timedOut : Bool)

namespace Event

def IsEnabled (c : Crew ι) : Event ι → Prop
  | execute _ _ => True
  | start id => ⟨id, .starting⟩ ∈ c.live
  | finish id job => ⟨id, .running job⟩ ∈ c.live
  | wake id _ => ⟨id, .waiting⟩ ∈ c.live

instance [DecidableEq ι] (c : Crew ι) (e : Event ι) : Decidable (e.IsEnabled c) :=
  match e with
  | execute _ _ => .isTrue trivial
  | start id => inferInstanceAs (Decidable (⟨id, .starting⟩ ∈ c.live))
  | finish id job => inferInstanceAs (Decidable (⟨id, .running job⟩ ∈ c.live))
  | wake id _ => inferInstanceAs (Decidable (⟨id, .waiting⟩ ∈ c.live))

/-- A worker could be started, had the submitter to start one. -/
def Spawns : Event ι → Prop
  | execute canSpawn _ => canSpawn = .ok ()
  | _ => True

def submitted? : Event ι → Option ι
  | execute _ job => some job
  | _ => none

def finished? : Event ι → Option ι
  | finish _ job => some job
  | _ => none

end Event

def after (c : Crew ι) : Event ι → Crew ι
  | .execute canSpawn job => (c.execute canSpawn job).2
  | .start id => c.takeNext id
  | .finish id _ => c.takeNext id
  | .wake id timedOut => c.wake id timedOut

/-- A critical section is entered, and leaves the crew like this. -/
def Enters (c : Crew ι) (e : Event ι) (c' : Crew ι) : Prop := e.IsEnabled c ∧ c.after e = c'

abbrev Run (c : Crew ι) (events : List (Event ι)) (c' : Crew ι) : Prop := Trace Enters c events c'

theorem step_iff : Step c c' ↔ ∃ e : Event ι, c.Enters e c' := by
  constructor
  · intro hstep
    cases hstep with
    | execute canSpawn job => exact ⟨.execute canSpawn job, trivial, rfl⟩
    | start id _ h => exact ⟨.start id, h, rfl⟩
    | finish id job _ h => exact ⟨.finish id job, h, rfl⟩
    | wake id timedOut _ h => exact ⟨.wake id timedOut, h, rfl⟩
  · rintro ⟨e, he, rfl⟩
    cases e with
    | execute canSpawn job => exact .execute canSpawn job c
    | start id => exact .start id c he
    | finish id job => exact .finish id job c he
    | wake id timedOut => exact .wake id timedOut c he

/-- Runs lead exactly where the steps of a crew lead. -/
theorem exists_run_iff : (∃ events, Run c events c') ↔ Relation.ReflTransGen Step c c' := by
  have hsteps : (fun c c' : Crew ι => ∃ e, c.Enters e c') = Step :=
    funext₂ fun _ _ => propext step_iff.symm
  rw [Trace.exists_iff, hsteps]

/-! ## What critical sections are made of -/

def enqueue (job : ι) (c : Crew ι) : Crew ι := { c with queue := c.queue ++ [job] }

/-- A worker could not be started, and its number is spent. -/
def spend (c : Crew ι) : Crew ι := { c with nextId := c.nextId + 1 }

/-- A worker takes note of a notification. -/
def hear (c : Crew ι) : Crew ι := { c with notified := c.notified - 1 }

/-- The workers other than the one with this number. -/
def others (c : Crew ι) (id : Nat) : List (Worker ι) := c.live.filter (·.id ≠ id)

/-- A worker that was idle leaves. -/
def leave (id : Nat) (c : Crew ι) : Crew ι :=
  { c with workers := c.workers - 1, idle := c.idle - 1, live := c.others id }

theorem execute_eq (c : Crew ι) (canSpawn : Except String Unit) (job : ι) :
    (c.execute canSpawn job).2 =
      if c.idle = 0 ∧ c.workers < c.limit then
        match canSpawn with
        | .ok () => (c.enqueue job).spawn
        | .error _ => (c.enqueue job).spend
      else if 0 < c.idle then (c.enqueue job).notify
      else c.enqueue job := by
  unfold execute
  dsimp only
  split
  · split <;> rfl
  · split <;> rfl

theorem wake_eq (c : Crew ι) (id : Nat) (timedOut : Bool) :
    c.wake id timedOut =
      if c.notified ≠ 0 then c.hear.takeNext id else if timedOut then c.leave id else c := rfl

/-! ## Numbers of workers -/

def ids (c : Crew ι) : List Nat := c.live.map Worker.id

/-- The crew counts its workers, and tells them apart. -/
structure IsManned (c : Crew ι) : Prop where
  workers_eq : c.workers = c.live.length
  workers_le : c.workers ≤ c.limit
  ids_nodup : c.ids.Nodup
  id_lt : ∀ id ∈ c.ids, id < c.nextId

/-- Two crews with the same workers, whatever these do. -/
structure SameWorkers (c c' : Crew ι) : Prop where
  limit : c'.limit = c.limit
  workers : c'.workers = c.workers
  nextId : c'.nextId = c.nextId
  ids : c'.ids = c.ids

theorem ids_setActivity (c : Crew ι) (id : Nat) (a : Activity ι) :
    (c.setActivity id a).ids = c.ids := by
  simp only [ids, setActivity, List.map_map]
  apply List.map_congr_left
  intro w _
  dsimp only [Function.comp]
  split <;> rfl

theorem sameWorkers_takeNext (c : Crew ι) (id : Nat) : SameWorkers c (c.takeNext id) := by
  rw [takeNext]
  split <;> exact ⟨rfl, rfl, rfl, ids_setActivity c id _⟩

theorem sameWorkers_hear (c : Crew ι) : SameWorkers c c.hear := ⟨rfl, rfl, rfl, rfl⟩

theorem IsManned.congr (h : c.IsManned) (hsame : SameWorkers c c') : c'.IsManned where
  workers_eq := by
    have hlength := congrArg List.length hsame.ids
    rw [ids, ids, List.length_map, List.length_map] at hlength
    rw [hsame.workers, h.workers_eq, hlength]
  workers_le := by
    rw [hsame.workers, hsame.limit]
    exact h.workers_le
  ids_nodup := by
    rw [hsame.ids]
    exact h.ids_nodup
  id_lt := by
    rw [hsame.ids, hsame.nextId]
    exact h.id_lt

theorem ids_spawn (c : Crew ι) : c.spawn.ids = c.ids ++ [c.nextId] := List.map_append

/-- The number of the new worker is above all numbers so far. -/
theorem IsManned.spawn (h : c.IsManned) (hroom : c.workers < c.limit) : c.spawn.IsManned := by
  refine ⟨?_, hroom, ?_, ?_⟩
  · simp [Crew.spawn, h.workers_eq]
  · rw [ids_spawn]
    refine List.nodup_append.mpr ⟨h.ids_nodup, List.nodup_singleton _, ?_⟩
    intro id hid new hnew heq
    rw [List.mem_singleton.mp hnew] at heq
    exact Nat.ne_of_lt (h.id_lt id hid) heq
  · rw [ids_spawn]
    intro id hid
    rcases List.mem_append.mp hid with hid | hnew
    · exact Nat.lt_succ_of_lt (h.id_lt id hid)
    · rw [List.mem_singleton.mp hnew]
      exact Nat.lt_succ_self _

theorem IsManned.execute (h : c.IsManned) (canSpawn : Except String Unit) (job : ι) :
    (c.execute canSpawn job).2.IsManned := by
  have hqueued : (c.enqueue job).IsManned := h.congr ⟨rfl, rfl, rfl, rfl⟩
  rw [execute_eq]
  split
  · next hroom =>
    split
    · exact hqueued.spawn hroom.2
    · exact ⟨hqueued.workers_eq, hqueued.workers_le, hqueued.ids_nodup,
        fun id hid => Nat.lt_succ_of_lt (hqueued.id_lt id hid)⟩
  · split
    · exact hqueued.congr ⟨rfl, rfl, rfl, rfl⟩
    · exact hqueued

/-- Setting the activity of a worker leaves the others alone. -/
theorem IsManned.live_perm_setActivity (h : c.IsManned) {id : Nat} {a : Activity ι}
    (hw : ⟨id, a⟩ ∈ c.live) (b : Activity ι) :
    (c.setActivity id b).live.Perm (⟨id, b⟩ :: c.others id) := by
  obtain ⟨before, after, hlive⟩ := List.append_of_mem hw
  have hnodup := h.ids_nodup
  rw [ids, hlive, List.map_append, List.map_cons, List.nodup_middle, List.nodup_cons] at hnodup
  have hne : ∀ w ∈ before ++ after, w.id ≠ id := by
    intro w hmem heq
    apply hnodup.1
    rw [← List.map_append]
    exact List.mem_map.mpr ⟨w, hmem, heq⟩
  have hothers : c.others id = before ++ after := by
    rw [others, hlive, List.filter_append, List.filter_cons_of_neg (by simp), ← List.filter_append]
    exact List.filter_eq_self.mpr fun w hmem => by simpa using hne w hmem
  have hkeep : ∀ ws : List (Worker ι), (∀ w ∈ ws, w ∈ before ++ after) →
      ws.map (fun w => if w.id = id then { w with activity := b } else w) = ws := by
    intro ws hws
    exact (List.map_congr_left fun w hmem => if_neg (hne w (hws w hmem))).trans (List.map_id _)
  have hset : (c.setActivity id b).live = before ++ ⟨id, b⟩ :: after := by
    rw [setActivity]
    dsimp only
    rw [hlive, List.map_append, List.map_cons, hkeep before fun _ => List.mem_append_left _,
      hkeep after fun _ => List.mem_append_right _, if_pos rfl]
  rw [hset, hothers]
  exact List.perm_middle

theorem IsManned.live_perm (h : c.IsManned) {id : Nat} {a : Activity ι} (hw : ⟨id, a⟩ ∈ c.live) :
    c.live.Perm (⟨id, a⟩ :: c.others id) := by
  have hset : (c.setActivity id a).live = c.live := by
    refine (List.map_congr_left fun w hmem => ?_).trans (List.map_id _)
    dsimp only [id_eq]
    split
    · next hid => rw [List.inj_on_of_nodup_map h.ids_nodup hmem hw hid]
    · rfl
  rw [← hset]
  exact h.live_perm_setActivity hw a

theorem ids_leave_sublist (c : Crew ι) (id : Nat) : (c.leave id).ids.Sublist c.ids :=
  List.filter_sublist.map _

theorem IsManned.leave (h : c.IsManned) {id : Nat} {a : Activity ι} (hw : ⟨id, a⟩ ∈ c.live) :
    (c.leave id).IsManned := by
  have hsub := ids_leave_sublist c id
  have hlength := (h.live_perm hw).length_eq
  have hworkers := h.workers_eq
  rw [List.length_cons] at hlength
  refine ⟨?_, ?_, h.ids_nodup.sublist hsub, fun id hid => h.id_lt id (hsub.subset hid)⟩
  · dsimp only [Crew.leave]
    omega
  · exact Nat.le_trans (Nat.sub_le _ _) h.workers_le

theorem IsManned.wake (h : c.IsManned) {id : Nat} (hw : ⟨id, .waiting⟩ ∈ c.live)
    (timedOut : Bool) : (c.wake id timedOut).IsManned := by
  rw [wake_eq]
  split
  · exact (h.congr (sameWorkers_hear c)).congr (sameWorkers_takeNext _ id)
  · split
    · exact h.leave hw
    · exact h

theorem IsManned.after (h : c.IsManned) {e : Event ι} (he : e.IsEnabled c) :
    (c.after e).IsManned := by
  cases e with
  | execute canSpawn job => exact h.execute canSpawn job
  | start id => exact h.congr (sameWorkers_takeNext c id)
  | finish id job => exact h.congr (sameWorkers_takeNext c id)
  | wake id timedOut => exact h.wake he timedOut

theorem isManned_new (maxWorkers : Nat) : (new maxWorkers : Crew ι).IsManned :=
  ⟨rfl, Nat.zero_le _, List.nodup_nil, nofun⟩

theorem Run.isManned {events : List (Event ι)} (hrun : Run c events c') (h : c.IsManned) :
    c'.IsManned := by
  induction hrun with
  | nil => exact h
  | snoc _ hstep ih =>
    obtain ⟨he, rfl⟩ := hstep
    exact ih.after he

/-! ## Numbers that were given before -/

/-- The limit stays, and who is new among the workers has a number that was not given before. -/
structure Precedes (c c' : Crew ι) : Prop where
  limit_eq : c'.limit = c.limit
  nextId_le : c.nextId ≤ c'.nextId
  mem_or_le : ∀ id ∈ c'.ids, id ∈ c.ids ∨ c.nextId ≤ id

theorem Precedes.refl (c : Crew ι) : Precedes c c := ⟨rfl, Nat.le_refl _, fun _ => .inl⟩

theorem Precedes.trans (h : Precedes c c') (h' : Precedes c' c'') : Precedes c c'' where
  limit_eq := h'.limit_eq.trans h.limit_eq
  nextId_le := Nat.le_trans h.nextId_le h'.nextId_le
  mem_or_le id hid := (h'.mem_or_le id hid).elim (h.mem_or_le id) fun hle =>
    .inr (Nat.le_trans h.nextId_le hle)

theorem SameWorkers.precedes (h : SameWorkers c c') : Precedes c c' where
  limit_eq := h.limit
  nextId_le := Nat.le_of_eq h.nextId.symm
  mem_or_le _ hid := .inl (h.ids ▸ hid)

theorem precedes_execute (c : Crew ι) (canSpawn : Except String Unit) (job : ι) :
    Precedes c (c.execute canSpawn job).2 := by
  rw [execute_eq]
  split
  · split
    · refine ⟨rfl, Nat.le_succ _, ?_⟩
      intro _ hid
      rw [ids_spawn] at hid
      refine (List.mem_append.mp hid).imp_right ?_
      intro hnew
      exact Nat.le_of_eq (List.mem_singleton.mp hnew).symm
    · exact ⟨rfl, Nat.le_succ _, fun _ => .inl⟩
  · split
    · exact SameWorkers.precedes ⟨rfl, rfl, rfl, rfl⟩
    · exact SameWorkers.precedes ⟨rfl, rfl, rfl, rfl⟩

theorem precedes_wake (c : Crew ι) (id : Nat) (timedOut : Bool) :
    Precedes c (c.wake id timedOut) := by
  rw [wake_eq]
  split
  · exact (sameWorkers_hear c).precedes.trans (sameWorkers_takeNext _ id).precedes
  · split
    · exact ⟨rfl, Nat.le_refl _, fun _ hid => .inl ((ids_leave_sublist c id).subset hid)⟩
    · exact .refl c

theorem precedes_after (c : Crew ι) (e : Event ι) : Precedes c (c.after e) := by
  cases e with
  | execute canSpawn job => exact precedes_execute c canSpawn job
  | start id => exact (sameWorkers_takeNext c id).precedes
  | finish id job => exact (sameWorkers_takeNext c id).precedes
  | wake id timedOut => exact precedes_wake c id timedOut

theorem Run.precedes {events : List (Event ι)} (hrun : Run c events c') : Precedes c c' := by
  induction hrun with
  | nil => exact .refl c
  | snoc _ hstep ih =>
    obtain ⟨-, rfl⟩ := hstep
    exact ih.trans (precedes_after _ _)

end SealedHttp.Crew
