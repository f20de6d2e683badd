import Mathlib.Data.List.Nodup
import SealedHttp.Accounting.Counters
import SealedHttp.Proofs.Accounting.Additions
import SealedHttp.Proofs.Text.Decimal

/-!
# Tags of requests

Workers draw tags side by side, each draw an addition of one to the counter of the worker. A worker
counts its draws without a gap, and no two draws give the same tag.
-/

namespace SealedHttp.RequestTags

open Counters

variable {events : List (Event Nat)} {s : Shared Nat}

/-! ## What a tag says -/

theorem eq_of_toString_eq {m n : Nat} (h : (toString m).toList = (toString n).toList) : m = n :=
  Decimal.IsNumeral.unique (Decimal.isNumeral_toString m) (h ▸ Decimal.isNumeral_toString n)

/-- A tag can be taken apart, since no digit is an underscore. -/
theorem text_inj {w w' n n' : Nat} : text w n = text w' n' ↔ w = w' ∧ n = n' := by
  constructor
  · intro h
    have hlists := congrArg String.toList h
    simp only [text, String.toList_append, List.append_assoc] at hlists
    have habsent (m : Nat) : '_' ∉ (toString m).toList := fun hmem =>
      absurd (Decimal.isDigit_of_mem_toString hmem) (by decide)
    obtain ⟨hw, -, hn⟩ :=
      (List.append_cons_inj_of_notMem (habsent w) (habsent n)).mp hlists
    exact ⟨eq_of_toString_eq hw, eq_of_toString_eq hn⟩
  · rintro ⟨rfl, rfl⟩
    rfl

/-! ## Draws -/

/-- The workers draw in turn, each draw after the one before has ended. -/
def drawAll : List Nat → RequestTags → List String × RequestTags
  | [], t => ([], t)
  | worker :: workers, t =>
    ((t.next worker).1 :: (drawAll workers (t.next worker).2).1,
      (drawAll workers (t.next worker).2).2)

theorem drawAll_concat (workers : List Nat) (worker : Nat) (t : RequestTags) :
    drawAll (workers ++ [worker]) t =
      ((drawAll workers t).1 ++ [((drawAll workers t).2.next worker).1],
        ((drawAll workers t).2.next worker).2) := by
  induction workers generalizing t with
  | nil => rfl
  | cons first workers ih => rw [List.cons_append, drawAll, ih, drawAll, List.cons_append]

/-- Every call is a draw of a tag. -/
def Draws (events : List (Event Nat)) : Prop := ∀ call ∈ begun events, call.delta = 1

/-- The tags that were drawn, in the order in which the draws took effect. -/
def tags (answers : List (Answer Nat)) : List String :=
  answers.map fun a => text a.key a.value.toNat

theorem Draws.delta_eq (hdraws : Draws events) (hrun : Shared.Run .initial events s)
    {a : Answer Nat} (ha : a ∈ answers events) : a.delta = 1 :=
  hdraws a.toCall (hrun.begun_perm.symm.subset
    (List.mem_append_left _ (List.mem_map_of_mem ha)))

/-- However draws follow each other, they come to the same as draws in turn, in the order in which
they take effect. -/
theorem drawAll_answers (hrun : Shared.Run .initial events s) (hdraws : Draws events) :
    drawAll ((answers events).map (·.key)) {} = (tags (answers events), ⟨s.counters⟩) := by
  induction hrun with
  | nil => rfl
  | @snoc events s s' e hrun hstep ih =>
    have hbefore : Draws events := by
      intro call hcall
      refine hdraws call ?_
      rw [begun_concat]
      exact List.mem_append_left _ hcall
    rw [answers_concat]
    rcases hstep.counters_cases with ⟨a, ha, hadd⟩ | ⟨hnone, hsame⟩
    · have hdelta : a.delta = 1 := by
        refine hdraws.delta_eq (hrun.snoc hstep) ?_
        rw [answers_concat, ha]
        exact List.mem_append_right _ (List.mem_singleton_self a)
      rw [hdelta] at hadd
      rw [ha, Option.toList_some, List.map_append, List.map_singleton, drawAll_concat, ih hbefore,
        next, hadd, tags, tags, List.map_append, List.map_singleton]
    · rw [hnone, Option.toList_none, List.append_nil, hsame]
      exact ih hbefore

/-- A draw that no other comes between. -/
theorem exists_run_next (worker : Nat) (t : RequestTags) :
    ∃ events, Shared.Run { counters := t.drawn } events { counters := (t.next worker).2.drawn } ∧
      tags (answers events) = [(t.next worker).1] := by
  obtain ⟨events, hrun, hanswers⟩ :=
    Shared.exists_run_add { counters := t.drawn } ⟨worker, 1⟩
  exact ⟨events, hrun, by rw [hanswers]; rfl⟩

theorem runningSums_replicate (n m : Nat) :
    Shared.runningSums n (List.replicate m 1) = List.range' (n + 1) m := by
  induction m generalizing n with
  | zero => rfl
  | succ m ih => rw [List.replicate_succ, Shared.runningSums, ih, List.range'_succ]

theorem deltas_of_draws {calls : List (Call Nat)} (h : ∀ call ∈ calls, call.delta = 1)
    (worker : Nat) : Shared.deltas worker calls =
      List.replicate (calls.filter (·.key = worker)).length 1 := by
  rw [Shared.deltas, List.eq_replicate_iff, List.length_map]
  refine ⟨rfl, fun n hn => ?_⟩
  obtain ⟨call, hcall, rfl⟩ := List.mem_map.mp hn
  rw [h call (List.mem_of_mem_filter hcall)]
  rfl

/-- The draws of one worker that took effect. -/
def drawnBy (worker : Nat) (events : List (Event Nat)) : List (Answer Nat) :=
  (answers events).filter (·.key = worker)

theorem values_of_draws (hexact : Shared.IsExact events s) (hdraws : Draws events) (worker : Nat) :
    (drawnBy worker events).map (·.value.toNat) =
      List.range' 1 (drawnBy worker events).length := by
  have hcalls : ∀ call ∈ (answers events).map Answer.toCall, call.delta = 1 := fun call hcall =>
    hdraws call (hexact.begun_perm.symm.subset (List.mem_append_left _ hcall))
  have hlength : (((answers events).map Answer.toCall).filter (·.key = worker)).length =
      (drawnBy worker events).length := by
    rw [List.filter_map, List.length_map]
    rfl
  rw [← hlength, ← runningSums_replicate, ← deltas_of_draws hcalls, ← hexact.values_eq]
  rfl

/-- The draws of a worker are numbered from one, without a gap. -/
theorem tags_drawnBy (hexact : Shared.IsExact events s) (hdraws : Draws events) (worker : Nat) :
    tags (drawnBy worker events) =
      (List.range (drawnBy worker events).length).map fun n => text worker (n + 1) := by
  calc tags (drawnBy worker events)
      = (drawnBy worker events).map fun a => text worker a.value.toNat := by
        refine List.map_congr_left fun a ha => ?_
        rw [of_decide_eq_true (List.mem_filter.mp ha).2]
    _ = (List.range' 1 (drawnBy worker events).length).map (text worker) := by
        rw [← values_of_draws hexact hdraws, List.map_map]
        rfl
    _ = _ := by
        rw [List.range'_eq_map_range, List.map_map]
        exact List.map_congr_left fun n _ => congrArg (text worker) (Nat.add_comm 1 n)

theorem nodup_tags (hexact : Shared.IsExact events s) (hdraws : Draws events) :
    (tags (answers events)).Nodup := by
  rw [tags, List.Nodup, List.pairwise_map, List.pairwise_iff_forall_sublist]
  intro a b hsub htags
  obtain ⟨hkey, hvalue⟩ := text_inj.mp htags
  -- Both are draws of the same worker, which never counts the same number twice.
  have hboth : [a, b].filter (·.key = a.key) = [a, b] := by
    rw [List.filter_eq_self]
    simp [hkey]
  have hown : [a, b].Sublist (drawnBy a.key events) := hboth ▸ hsub.filter (·.key = a.key)
  have hnumbers := hown.map fun a => a.value.toNat
  rw [values_of_draws hexact hdraws, List.map_cons, List.map_singleton, hvalue] at hnumbers
  exact List.not_nodup_pair _ (List.Nodup.sublist hnumbers List.nodup_range')

/-- What workers can rely on. -/
structure IsDistinct (events : List (Event Nat)) (s : Shared Nat) : Prop where
  drawAll_eq : drawAll ((answers events).map (·.key)) {} = (tags (answers events), ⟨s.counters⟩)
  own_eq : ∀ worker, tags (drawnBy worker events) =
    (List.range (drawnBy worker events).length).map fun n => text worker (n + 1)
  nodup : (tags (answers events)).Nodup

/-- However additions follow each other, counters that do not overflow are exact. Hence, however
draws follow each other, no tag is drawn twice. The draws are as good as calls in turn, and each
such call is a draw that no other comes between. -/
theorem isExact_and_isDistinct_of_run :
    (∀ {κ : Type} [DecidableEq κ] {events : List (Event κ)} {s : Shared κ},
      Shared.Run .initial events s → (∀ key, Shared.total key (begun events) < 2 ^ 64) →
        Shared.IsExact events s) ∧
    (∀ {events : List (Event Nat)} {s : Shared Nat}, Shared.Run .initial events s →
      (∀ worker, Shared.total worker (begun events) < 2 ^ 64) → Draws events →
        IsDistinct events s) ∧
    ∀ (worker : Nat) (t : RequestTags), ∃ events,
      Shared.Run { counters := t.drawn } events { counters := (t.next worker).2.drawn } ∧
        tags (answers events) = [(t.next worker).1] := by
  refine ⟨fun hrun htotal => hrun.isExact htotal, ?_, exists_run_next⟩
  intro events s hrun htotal hdraws
  have hexact := hrun.isExact htotal
  exact ⟨drawAll_answers hrun hdraws, tags_drawnBy hexact hdraws, nodup_tags hexact hdraws⟩

/-- Two requests of one worker miss its counter before either makes it, and get two tags. -/
theorem isExact_and_isDistinct_of_run_race :
    ∃ (events : List (Event Nat)) (s : Shared Nat), Shared.Run .initial events s ∧
      s.flying = [] ∧ (s.counters.get 3).toNat = 2 ∧ tags (answers events) = ["3_1", "3_2"] ∧
        (drawAll [3, 3] {}).1 = ["3_1", "3_2"] ∧ (tags (answers events)).Nodup := by
  have hasked : Shared.Run .initial [.begin (⟨3, 1⟩ : Call Nat), .begin ⟨3, 1⟩] _ :=
    (Trace.nil.snoc (.begin _ _ _ _)).snoc (.begin _ _ _ _)
  have hmissed := (hasked.snoc (.miss [] [⟨3, 1⟩] _ rfl)).snoc (.miss [] [] _ rfl)
  have hrun := (hmissed.snoc (.insert [] [] [⟨3, 1⟩] rfl)).snoc (.insert [] [] [] rfl)
  have htotal : ∀ worker, Shared.total worker [(⟨3, 1⟩ : Call Nat), ⟨3, 1⟩] < 2 ^ 64 := by
    intro worker
    by_cases hworker : 3 = worker <;> simp [Shared.total, Shared.deltas, hworker]
  have hexact := isExact_and_isDistinct_of_run.1 hrun htotal
  have hdraws : ∀ call ∈ [(⟨3, 1⟩ : Call Nat), ⟨3, 1⟩], call.delta = 1 := by simp
  have hdistinct := isExact_and_isDistinct_of_run.2.1 hrun htotal hdraws
  exact ⟨_, _, hrun, rfl, hexact.get_eq rfl 3, by decide, congrArg Prod.fst hdistinct.drawAll_eq,
    hdistinct.nodup⟩

end SealedHttp.RequestTags
