import DistriSys.Protocol.Passes
import DistriSys.Transition.Worklist

/-!
# Passes that break off

A rejected command ends a pass of the scheduler or of the watchdog in the middle of its
loop; the exception is logged and nothing is retried. Both go through a worklist
(`worklist_scheduler`, `worklist_watchdog`), so the next pass that does not break off makes
up for it.

- **`interrupted_passes_made_up`**: the scheduler's does exactly what it would have done
  alone;
- **`interrupted_checks_made_up`**: with the watchdog's, every stalled job has been requeued
  once, in some order.

The times of the passes are arbitrary, only not later than the last one, and what is due or
stalled may grow from one to the next. For the scheduler the stores are equal at the end. For the
watchdog they are not, since it shows in the waiting lists in which order the jobs have been
requeued; that order is the one thing left open.
-/

namespace DistriSys

open Js Redis Transition

variable {T : Type} {env : Env T}

/-! ## The scheduler -/

section Scheduler

variable {st : Store} {now : Nat}

/-- One round of the loop. -/
def releaseDue (env : Env T) (st : Store) (id : JobId) : Store :=
  releaseTransaction env st id (orNormal (st.jobs id).priority)

/-- In a list sorted by score, what is due now comes before what is due later. -/
theorem filter_le_front {entries : List (JobId × Nat)} (h : entries.Pairwise Before)
    {t t' : Nat} (ht : t ≤ t') :
    entries.filter (fun e => decide (e.2 ≤ t)) <+: entries.filter fun e => decide (e.2 ≤ t') := by
  induction entries with
  | nil => exact List.prefix_refl _
  | cons e rest ih =>
    obtain ⟨hhead, hrest⟩ := List.pairwise_cons.mp h
    by_cases hdue : e.2 ≤ t
    · rw [List.filter_cons_of_pos (by simpa using hdue),
        List.filter_cons_of_pos (by simpa using hdue.trans ht)]
      exact (List.prefix_cons_inj e).mpr (ih hrest)
    · -- nothing after `e` is due at `t`
      have hnone : rest.filter (fun e => decide (e.2 ≤ t)) = [] := by
        refine List.filter_eq_nil_iff.mpr fun e' he' => ?_
        have hle : e.2 ≤ e'.2 := (Prod.Lex.le_iff.mp (hhead e' he')).elim (fun h => h.le) fun h => h.1.le
        simp only [decide_eq_true_eq]
        omega
      rw [List.filter_cons_of_neg (by simpa using hdue), hnone]
      exact List.nil_prefix

/-- What is due earlier stays first in line. -/
theorem dueJobs_front (env : Env T) (st : Store) {t t' : Nat} (ht : t ≤ t') :
    dueJobs env t st <+: dueJobs env t' st :=
  (filter_le_front (st.delayed env.queueName).sorted ht).map Prod.fst

/-- A release takes its job out of the line and leaves the order of the others. -/
theorem dueJobs_releaseDue (t : Nat) (st : Store) (id : JobId) :
    dueJobs env t (releaseDue env st id) = (dueJobs env t st).filter (· ≠ id) := by
  have hdelayed : (releaseDue env st id).delayed env.queueName =
      (st.delayed env.queueName).zrem id := by
    show Function.update st.delayed env.queueName _ env.queueName = _
    rw [Function.update_self]
  rw [dueJobs, hdelayed]
  show List.map Prod.fst (((st.delayed env.queueName).entries.filter _).filter _) = _
  rw [List.filter_comm, dueJobs, ZSet.zrangebyscore, List.filter_map]
  rfl

/-- The due jobs are the worklist of the scheduler. -/
theorem worklist_scheduler (env : Env T) :
    Worklist (fun _ => True) (dueJobs env) (releaseDue env) where
  nodup _ _ := ZSet.nodup_zrangebyscore _ _
  mono {_ _ st _} ht hi := (dueJobs_front env st ht).subset hi
  keeps _ _ := trivial
  act _ _ t' := dueJobs_releaseDue t' _ _

/-- What a pass that breaks off has done. -/
theorem after_moveDueJobs (rejects : SchedulerCommand → Bool) (ids : List JobId) :
    ∀ st : Store, (Scheduler.moveDueJobs env rejects ids).after st =
      (ids.takeWhile fun id => !rejects (.lookup id) && !rejects (.move id)).foldl
        (releaseDue env) st := by
  induction ids with
  | nil => exact fun st => rfl
  | cons id rest ih =>
    intro st
    rw [Scheduler.moveDueJobs, Async.after_query_bind, Async.after_request_bind]
    cases hlookup : rejects (.lookup id) with
    | true => simp [hlookup]
    | false =>
      cases hmove : rejects (.move id) with
      | true => simp [hlookup, hmove]
      | false =>
        simp only [List.takeWhile_cons, hlookup, hmove, Bool.not_false, Bool.and_self, if_true,
          Bool.false_eq_true, if_false, List.foldl_cons]
        exact ih _

/-- A broken pass releases the jobs up to where it broke off. -/
theorem after_scheduler_pass (now : Nat) (rejects : SchedulerCommand → Bool) (st : Store) :
    (Scheduler.processDelayedJobs env now rejects).after st =
      (Scheduler.movedJobs rejects (dueJobs env now st)).foldl (releaseDue env) st := by
  rw [Scheduler.processDelayedJobs, Async.after_query_bind, Scheduler.movedJobs]
  split
  · rfl
  · exact after_moveDueJobs rejects _ st

/-- These are the first ones. -/
theorem movedJobs_front (rejects : SchedulerCommand → Bool) (due : List JobId) :
    Scheduler.movedJobs rejects due <+: due := by
  unfold Scheduler.movedJobs
  split
  · exact List.nil_prefix
  · exact List.takeWhile_prefix _

/-- Passes of the scheduler, one after the other: when each runs, and what is rejected. -/
def Scheduler.passes (env : Env T) (st : Store) (passes : List (Nat × (SchedulerCommand → Bool))) :
    Store :=
  passes.foldl (fun st pass => (processDelayedJobs env pass.1 pass.2).after st) st

/-- **Interrupted passes are made up for.** However many passes of the scheduler break off, at
whatever commands: a later one that does not leaves Redis as it would have left it alone. -/
theorem interrupted_passes_made_up (env : Env T) (now : Nat) (st : Store)
    (passes : List (Nat × (SchedulerCommand → Bool))) (h : ∀ pass ∈ passes, pass.1 ≤ now)
    (rejects : SchedulerCommand → Bool)
    (hlast : (Scheduler.processDelayedJobs env now rejects).throws
      (Scheduler.passes env st passes) = false) :
    (Scheduler.processDelayedJobs env now rejects).after (Scheduler.passes env st passes) =
      processDelayedJobs env now st := by
  obtain ⟨dealt, hcut⟩ : ∃ dealt, CutOff (dueJobs env) (releaseDue env) now st dealt
      (Scheduler.passes env st passes) :=
    CutOff.of_passes
      (fun st pass => ⟨_, movedJobs_front pass.2 _, after_scheduler_pass pass.1 pass.2 st⟩)
      passes h st
  rw [after_scheduler_pass, movedJobs_eq_dueJobs hlast]
  exact (worklist_scheduler env).made_up_in_order trivial (fun st ht => dueJobs_front env st ht)
    hcut

/-- Three jobs in the delayed set. -/
def threeDelayed : Store :=
  ((Store.empty.zadd "main_queue" 10 "a").zadd "main_queue" 20 "b").zadd "main_queue" 35 "c"

theorem interrupted_passes_made_up_second :
    (Scheduler.processDelayedJobs mainQueue 40 fun _ => false).after
        (Scheduler.passes mainQueue threeDelayed [(30, (· = .move "b"))]) =
      processDelayedJobs mainQueue 40 threeDelayed :=
  interrupted_passes_made_up mainQueue 40 threeDelayed [(30, (· = .move "b"))] (by decide)
    (fun _ => false) (by decide +kernel)

end Scheduler

/-! ## The watchdog -/

section Watchdog

variable {st : Store} {now : Nat}

/-- One round of the loop. -/
def requeueStalled (env : Env T) (st : Store) (id : JobId) : Store :=
  requeueTransaction env st id (st.jobs id)

theorem dedup_filter (p : JobId → Bool) (ids : List JobId) :
    (ids.filter p).dedup = ids.dedup.filter p := by
  induction ids with
  | nil => rfl
  | cons id rest ih =>
    by_cases hid : id ∈ rest
    · rw [List.dedup_cons_of_mem hid, ← ih, List.filter_cons]
      split
      · next hp => exact List.dedup_cons_of_mem (List.mem_filter.mpr ⟨hid, hp⟩)
      · rfl
    · rw [List.dedup_cons_of_notMem hid, List.filter_cons, List.filter_cons, ← ih]
      split
      · exact List.dedup_cons_of_notMem fun h => hid (List.mem_filter.mp h).1
      · rfl

theorem distinct_filter (p : JobId → Bool) (ids : List JobId) :
    distinct (ids.filter p) = (distinct ids).filter p := by
  rw [distinct, distinct, ← List.filter_reverse, dedup_filter, List.filter_reverse]

theorem heartbeats_requeueStalled (env : Env T) (st : Store) (id : JobId) :
    (requeueStalled env st id).heartbeats = st.heartbeats := by
  unfold requeueStalled requeueTransaction
  split <;> rfl

/-- A requeue takes its job off the list of the stalled: it had one entry. -/
theorem stalledIds_requeueStalled (h : (st.lists (.processingList env.queueName)).Nodup) (t : Nat)
    (id : JobId) :
    stalledIds env t (requeueStalled env st id) = (stalledIds env t st).filter (· ≠ id) := by
  obtain ⟨hprocessing, hactive⟩ := entries_requeueTransaction env st id (st.jobs id)
  have hkeys : ((st.activeJobs env.queueName).hdel id).keys =
      (st.activeJobs env.queueName).keys.filter (· ≠ id) := by
    rw [Hash.keys, Hash.keys, List.filter_map]
    rfl
  have hcandidates : ((requeueStalled env st id).activeJobs env.queueName).keys ++
      (requeueStalled env st id).lists (.processingList env.queueName) =
        ((st.activeJobs env.queueName).keys ++
          st.lists (.processingList env.queueName)).filter (· ≠ id) := by
    have herase : (st.lists (.processingList env.queueName)).erase id =
        (st.lists (.processingList env.queueName)).filter (· ≠ id) := by
      rw [h.erase_eq_filter]
      exact List.filter_congr fun id' _ => by simp [bne, beq_eq_decide]
    rw [requeueStalled, hprocessing, hactive, hkeys, lrem_one, herase, List.filter_append]
  have halive : ∀ id', (requeueStalled env st id).alive t id' = st.alive t id' := by
    intro id'
    rw [Store.alive, heartbeats_requeueStalled]
    rfl
  rw [stalledIds, hcandidates, distinct_filter, stalledIds, List.filter_comm]
  exact congrArg _ (List.filter_congr fun id' _ => by rw [halive])

/-- The stalled jobs are the worklist of the watchdog, while no job has two entries on the
processing list. -/
theorem worklist_watchdog (env : Env T) :
    Worklist (fun st : Store => (st.lists (.processingList env.queueName)).Nodup)
      (stalledIds env) (requeueStalled env) where
  nodup _ _ := nodup_stalledIds env _ _
  mono {t t' st id} ht hid := by
    rw [mem_stalledIds] at hid ⊢
    refine ⟨hid.1, ?_⟩
    have hexpired := hid.2
    simp only [Store.alive, Option.isSome_eq_false_iff, Option.isNone_iff_eq_none] at hexpired ⊢
    exact Volatile.get?_eq_none_mono ht hexpired
  keeps {_ st id} h _ := by
    rw [requeueStalled, (entries_requeueTransaction env st id _).1, lrem_one]
    exact h.erase id
  act h _ t' := stalledIds_requeueStalled h t' _

/-- The stalled ids that a pass has dealt with when it ends. -/
def Watchdog.requeuedJobs (rejects : WatchdogCommand → Bool) (stalled : List JobId) :
    List JobId :=
  if rejects .active || rejects .processing || rejects .heartbeats then []
  else stalled.takeWhile fun id => !rejects (.inspect id) && !rejects (.requeue id)

/-- The loop requeues up to the first rejected command. -/
theorem after_requeueStalledJobs (rejects : WatchdogCommand → Bool) (ids : List JobId) :
    ∀ st : Store, (Watchdog.requeueStalledJobs env rejects ids).after st =
      (ids.takeWhile fun id => !rejects (.inspect id) && !rejects (.requeue id)).foldl
        (requeueStalled env) st := by
  induction ids with
  | nil => exact fun st => rfl
  | cons id rest ih =>
    intro st
    rw [Watchdog.requeueStalledJobs, Async.after_query_bind, Async.after_request_bind]
    cases hinspect : rejects (.inspect id) with
    | true => simp [hinspect]
    | false =>
      cases hrequeue : rejects (.requeue id) with
      | true => simp [hinspect, hrequeue]
      | false =>
        simp only [List.takeWhile_cons, hinspect, hrequeue, Bool.not_false, Bool.and_self, if_true,
          Bool.false_eq_true, if_false, List.foldl_cons]
        exact ih _

/-- A broken pass requeues what it got to. -/
theorem after_watchdog_pass (now : Nat) (rejects : WatchdogCommand → Bool) (st : Store) :
    (Watchdog.checkStalledJobs env now rejects).after st =
      (Watchdog.requeuedJobs rejects (stalledIds env now st)).foldl (requeueStalled env) st := by
  rw [Watchdog.checkStalledJobs, Async.after_query_bind, Watchdog.requeuedJobs]
  cases hactive : rejects .active with
  | true => rfl
  | false =>
    simp only [Async.after_query_bind, Bool.false_eq_true, if_false, Bool.false_or]
    cases hprocessing : rejects .processing with
    | true => rfl
    | false =>
      simp only [Bool.false_eq_true, if_false, Bool.false_or]
      split
      · next hnone =>
        have hstalled : stalledIds env now st = [] := by rw [stalledIds, hnone]; rfl
        rw [hstalled]
        split <;> rfl
      · rw [Async.after_query_bind]
        split
        · rfl
        · exact after_requeueStalledJobs rejects _ st

theorem requeuedJobs_front (rejects : WatchdogCommand → Bool) (stalled : List JobId) :
    Watchdog.requeuedJobs rejects stalled <+: stalled := by
  unfold Watchdog.requeuedJobs
  split
  · exact List.nil_prefix
  · exact List.takeWhile_prefix _

/-- The loop ends with an exception only at a rejected command. -/
theorem not_rejects_of_requeueStalledJobs {rejects : WatchdogCommand → Bool} {ids : List JobId} :
    ∀ {st : Store}, (Watchdog.requeueStalledJobs env rejects ids).throws st = false →
      ∀ id ∈ ids, rejects (.inspect id) = false ∧ rejects (.requeue id) = false := by
  induction ids with
  | nil => simp
  | cons id rest ih =>
    intro st h
    rw [Watchdog.requeueStalledJobs, Async.throws_query_bind, Async.throws_request_bind] at h
    simp only [Bool.or_eq_false_iff] at h
    intro id' hid'
    rcases List.mem_cons.mp hid' with rfl | hid'
    · exact ⟨h.1, h.2.1⟩
    · exact ih h.2.2 id' hid'

/-- A pass without an exception has dealt with every stalled job. -/
theorem requeuedJobs_of_done {rejects : WatchdogCommand → Bool}
    (h : (Watchdog.checkStalledJobs env now rejects).throws st = false) :
    Watchdog.requeuedJobs rejects (stalledIds env now st) = stalledIds env now st := by
  rw [Watchdog.checkStalledJobs, Async.throws_query_bind, Async.throws_query_bind] at h
  simp only [Bool.or_eq_false_iff] at h
  obtain ⟨hactive, hprocessing, h⟩ := h
  rw [Watchdog.requeuedJobs, hactive, hprocessing]
  split at h
  · next hnone =>
    have hstalled : stalledIds env now st = [] := by rw [stalledIds, hnone]; rfl
    rw [hstalled]
    split <;> rfl
  · rw [Async.throws_query_bind, Bool.or_eq_false_iff] at h
    rw [h.1, if_neg (by decide), List.takeWhile_eq_self_iff]
    intro id hid
    obtain ⟨hinspect, hrequeue⟩ := not_rejects_of_requeueStalledJobs h.2 id hid
    rw [hinspect, hrequeue]
    rfl

/-- Passes of the watchdog, one after the other: when each runs, and what is rejected. -/
def Watchdog.passes (env : Env T) (st : Store) (passes : List (Nat × (WatchdogCommand → Bool))) :
    Store :=
  passes.foldl (fun st pass => (checkStalledJobs env pass.1 pass.2).after st) st

/-- **Interrupted checks are made up for.** However many passes of the watchdog break off, at
whatever commands: after a later one that does not, every job that is stalled by then has been
requeued once. -/
theorem interrupted_checks_made_up (env : Env T) (now : Nat) (st : Store)
    (hnodup : (st.lists (.processingList env.queueName)).Nodup)
    (passes : List (Nat × (WatchdogCommand → Bool))) (h : ∀ pass ∈ passes, pass.1 ≤ now)
    (rejects : WatchdogCommand → Bool)
    (hlast : (Watchdog.checkStalledJobs env now rejects).throws
      (Watchdog.passes env st passes) = false) :
    ∃ ids, ids.Perm (stalledIds env now st) ∧
      StalledJobsRequeued env st ids
        ((Watchdog.checkStalledJobs env now rejects).after (Watchdog.passes env st passes)) := by
  obtain ⟨dealt, hcut⟩ : ∃ dealt, CutOff (stalledIds env) (requeueStalled env) now st dealt
      (Watchdog.passes env st passes) :=
    CutOff.of_passes
      (fun st pass => ⟨_, requeuedJobs_front pass.2 _, after_watchdog_pass pass.1 pass.2 st⟩)
      passes h st
  obtain ⟨hall, hfold⟩ := (worklist_watchdog env).made_up hnodup hcut
  refine ⟨_, hall, ?_⟩
  rw [after_watchdog_pass, requeuedJobs_of_done hlast, hfold]
  exact requeue_loop (hall.nodup_iff.mpr (nodup_stalledIds env now st)) st

/-- Two jobs on the processing list, without heartbeats. -/
def twoStalled : Store :=
  (Store.empty.lpush (.processingList "main_queue") "a").lpush (.processingList "main_queue") "b"

theorem interrupted_checks_made_up_second :
    stalledIds mainQueue 40 twoStalled = ["b", "a"] ∧
    ∃ ids, ids.Perm (stalledIds mainQueue 40 twoStalled) ∧
      StalledJobsRequeued mainQueue twoStalled ids
        ((Watchdog.checkStalledJobs mainQueue 40 fun _ => false).after
          (Watchdog.passes mainQueue twoStalled [(30, (· = .inspect "a"))])) :=
  ⟨by decide +kernel, interrupted_checks_made_up mainQueue 40 twoStalled (by decide +kernel)
    [(30, (· = .inspect "a"))] (by decide) (fun _ => false) (by decide +kernel)⟩

end Watchdog

end DistriSys
