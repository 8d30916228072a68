import DistriSys.Core.Requests
import DistriSys.Js.Double
import DistriSys.Protocol.Places

/-!
# What a pass does to the store

A pass of the scheduler and a pass of the watchdog go through a list of distinct ids
with one transaction for each. `DueJobsMoved` and `StalledJobsRequeued` say what the
store is like when they have dealt with some of these ids: what became of each of
them, what order they stand in, and that nothing else has changed. One transaction
adds an id (`DueJobsMoved.cons`, `StalledJobsRequeued.cons`), so a pass, by induction
on its list, adds all of them: **`due_jobs_moved`**, **`stalled_jobs_requeued`**. The
scheduler's pass may end at any of its commands.

- `Scheduler.movedJobs`: the jobs a broken pass has got to;
- `after_processDelayedJobs`: what a pass leaves that a rejected command has ended;
- `processDelayedJobs_moved`, `checkStalledJobs_requeued`: the effect of a pass as a fact
  about the store, for whoever goes on from there.
-/

namespace DistriSys

open Js Redis

variable {T : Type} {env : Env T} {st st' : Store} {id : JobId} {ids : List JobId}

/-- Those of the ids whose records name this priority; a record without one counts as
normal. -/
def ofPriority (st : Store) (priority : String) (ids : List JobId) : List JobId :=
  ids.filter fun id => orNormal (st.jobs id).priority = priority

theorem ofPriority_cons (st : Store) (priority : String) (id : JobId) (ids : List JobId) :
    ofPriority st priority (id :: ids) =
      (if orNormal (st.jobs id).priority = priority then [id] else []) ++
        ofPriority st priority ids := by
  rw [ofPriority, List.filter_cons]
  by_cases h : orNormal (st.jobs id).priority = priority <;> simp [ofPriority, h]

/-- Only the records of the ids themselves matter. -/
theorem ofPriority_congr {priority : String} (h : ∀ id ∈ ids, st'.jobs id = st.jobs id) :
    ofPriority st' priority ids = ofPriority st priority ids := by
  apply List.filter_congr
  intro id hid
  rw [h id hid]

/-- Removing one more entry. -/
theorem filter_not_mem_cons {α : Type} (entries : List (JobId × α)) (id : JobId)
    (ids : List JobId) :
    (entries.filter (·.1 ≠ id)).filter (·.1 ∉ ids) = entries.filter (·.1 ∉ id :: ids) := by
  rw [List.filter_filter]
  refine List.filter_congr ?_
  intro e _
  simp only [List.mem_cons, not_or, ne_eq, decide_not, Bool.decide_and, Bool.and_comm]

/-! ## The scheduler -/

section Scheduler

/-- The ids due at time `now`. -/
def dueJobs (env : Env T) (now : Nat) (st : Store) : List JobId :=
  (st.delayed env.queueName).zrangebyscore now

/-- The due ids that a pass has dealt with when it ends: those before the first
command that is rejected. -/
def Scheduler.movedJobs (rejects : SchedulerCommand → Bool) (due : List JobId) : List JobId :=
  if rejects .range then []
  else due.takeWhile fun id => !rejects (.lookup id) && !rejects (.move id)

/-- The ids have left the delayed set for the waiting lists, and nothing else has
happened. -/
structure DueJobsMoved (env : Env T) (st : Store) (moved : List JobId) (st' : Store) : Prop where
  /-- The other members keep their scores. -/
  delayed : (st'.delayed env.queueName).entries =
    (st.delayed env.queueName).entries.filter (·.1 ∉ moved)
  /-- They will be taken in this order, after the ids that were waiting already. -/
  waiting : ∀ priority, st'.queued (.waitingList env.queueName priority) =
    st.queued (.waitingList env.queueName priority) ++ ofPriority st priority moved
  moved_record : ∀ id ∈ moved,
    st'.jobs id = { st.jobs id with status := some JobStatus.waiting.name }
  other_record : ∀ id ∉ moved, st'.jobs id = st.jobs id
  other_delayed : ∀ queue ≠ env.queueName, st'.delayed queue = st.delayed queue
  other_lists : ∀ key, (∀ priority, key ≠ .waitingList env.queueName priority) →
    st'.lists key = st.lists key
  others : st'.activeJobs = st.activeJobs ∧ st'.heartbeats = st.heartbeats ∧
    st'.idempotency = st.idempotency ∧ st'.jobsProcessedTotal = st.jobsProcessedTotal ∧
    st'.jobsFailedTotal = st.jobsFailedTotal ∧ st'.processingTimeSum = st.processingTimeSum

/-- A pass that ends at once. -/
theorem DueJobsMoved.nil (env : Env T) (st : Store) : DueJobsMoved env st [] st where
  delayed := by simp
  waiting priority := (List.append_nil _).symm
  moved_record id hid := by cases hid
  other_record id _ := rfl
  other_delayed queue _ := rfl
  other_lists key _ := rfl
  others := ⟨rfl, rfl, rfl, rfl, rfl, rfl⟩

theorem jobs_releaseTransaction (env : Env T) (st : Store) (id : JobId) (priority : String) :
    (releaseTransaction env st id priority).jobs =
      Function.update st.jobs id { st.jobs id with status := some JobStatus.waiting.name } := rfl

/-- One transaction. -/
theorem DueJobsMoved.cons (hid : id ∉ ids)
    (h : DueJobsMoved env
      (releaseTransaction env st id (orNormal (st.jobs id).priority)) ids st') :
    DueJobsMoved env st (id :: ids) st' := by
  -- the records of the rest are as they were
  have hrecords : ∀ id' ≠ id,
      (releaseTransaction env st id (orNormal (st.jobs id).priority)).jobs id' = st.jobs id' := by
    intro id' hne
    rw [jobs_releaseTransaction, Function.update_of_ne hne]
  constructor
  case delayed =>
    rw [h.delayed]
    show List.filter _ (Function.update st.delayed env.queueName _ env.queueName).entries = _
    rw [Function.update_self]
    exact filter_not_mem_cons _ id ids
  case waiting =>
    intro priority
    have hqueued : (releaseTransaction env st id (orNormal (st.jobs id).priority)).queued
        (.waitingList env.queueName priority) = st.queued (.waitingList env.queueName priority) ++
          if orNormal (st.jobs id).priority = priority then [id] else [] := by
      show ((st.zrem env.queueName id).lpush _ id).queued _ = _
      rw [Store.queued_lpush]
      simp only [ListKey.waitingList.injEq, true_and]
      rfl
    rw [h.waiting, hqueued, ofPriority_cons, List.append_assoc, ofPriority_congr]
    intro id' hid'
    exact hrecords id' fun heq => hid (heq ▸ hid')
  case moved_record =>
    intro id' hid'
    rcases List.mem_cons.mp hid' with rfl | hid'
    · rw [h.other_record id' hid, jobs_releaseTransaction, Function.update_self]
    · rw [h.moved_record id' hid', hrecords id' fun heq => hid (heq ▸ hid')]
  case other_record =>
    intro id' hid'
    rw [List.mem_cons, not_or] at hid'
    rw [h.other_record id' hid'.2, hrecords id' hid'.1]
  case other_delayed =>
    intro queue hqueue
    rw [h.other_delayed queue hqueue]
    exact Function.update_of_ne hqueue _ _
  case other_lists =>
    intro key hkey
    rw [h.other_lists key hkey]
    exact Function.update_of_ne (hkey _) _ _
  case others => exact h.others

/-- The loop, whatever is rejected. -/
theorem moveDueJobs_moved (rejects : SchedulerCommand → Bool) (hids : ids.Nodup) (st : Store) :
    DueJobsMoved env st (ids.takeWhile fun id => !rejects (.lookup id) && !rejects (.move id))
      ((Scheduler.moveDueJobs env rejects ids).after st) := by
  induction ids generalizing st with
  | nil => exact .nil env st
  | cons id ids ih =>
    obtain ⟨hid, hids⟩ := List.nodup_cons.mp hids
    rw [Scheduler.moveDueJobs, Async.after_query_bind, Async.after_request_bind]
    cases hlookup : rejects (.lookup id) with
    | true => simpa [hlookup] using DueJobsMoved.nil env st
    | false =>
      cases hmove : rejects (.move id) with
      | true => simpa [hlookup, hmove] using DueJobsMoved.nil env st
      | false =>
        simp only [List.takeWhile_cons, hlookup, hmove, Bool.not_false, Bool.and_self, if_true,
          Bool.false_eq_true, if_false]
        exact .cons (fun h => hid (List.takeWhile_subset _ h)) (ih hids _)

/-- The loop ends with an exception only at a rejected command. -/
theorem not_rejects_of_moveDueJobs {rejects : SchedulerCommand → Bool}
    (h : (Scheduler.moveDueJobs env rejects ids).throws st = false) :
    ∀ id ∈ ids, rejects (.lookup id) = false ∧ rejects (.move id) = false := by
  induction ids generalizing st with
  | nil => simp
  | cons id ids ih =>
    rw [Scheduler.moveDueJobs, Async.throws_query_bind, Async.throws_request_bind] at h
    simp only [Bool.or_eq_false_iff] at h
    intro id' hid'
    rcases List.mem_cons.mp hid' with rfl | hid'
    · exact ⟨h.1, h.2.1⟩
    · exact ih h.2.2 id' hid'

/-- When nothing is rejected, the pass is the whole operation. -/
theorem after_processDelayedJobs (env : Env T) (now : Nat) (st : Store) :
    (Scheduler.processDelayedJobs env now fun _ => false).after st =
      processDelayedJobs env now st := by
  have hloop : ∀ (ids : List JobId) (st : Store),
      (Scheduler.moveDueJobs env (fun _ => false) ids).after st =
        ids.foldl
          (fun st id => releaseTransaction env st id (orNormal (st.jobs id).priority)) st := by
    intro ids
    induction ids with
    | nil => exact fun st => rfl
    | cons id ids ih =>
      intro st
      rw [Scheduler.moveDueJobs, Async.after_query_bind, Async.after_request_bind]
      exact ih _
  rw [Scheduler.processDelayedJobs, Async.after_query_bind]
  exact hloop _ st

theorem nodup_dueJobs (env : Env T) (now : Nat) (st : Store) : (dueJobs env now st).Nodup :=
  ZSet.nodup_zrangebyscore _ _

/-- A pass moves the due ids up to the first rejected command. -/
theorem processDelayedJobs_moved (env : Env T) (now : Nat) (rejects : SchedulerCommand → Bool)
    (st : Store) :
    DueJobsMoved env st (Scheduler.movedJobs rejects (dueJobs env now st))
      ((Scheduler.processDelayedJobs env now rejects).after st) := by
  rw [Scheduler.processDelayedJobs, Async.after_query_bind, Scheduler.movedJobs]
  split
  · exact .nil env st
  · exact moveDueJobs_moved rejects (nodup_dueJobs env now st) st

/-- Without an exception those are all of them. -/
theorem movedJobs_eq_dueJobs {now : Nat} {rejects : SchedulerCommand → Bool}
    (hdone : (Scheduler.processDelayedJobs env now rejects).throws st = false) :
    Scheduler.movedJobs rejects (dueJobs env now st) = dueJobs env now st := by
  rw [Scheduler.processDelayedJobs, Async.throws_query_bind, Bool.or_eq_false_iff] at hdone
  have hserved := not_rejects_of_moveDueJobs hdone.2
  rw [Scheduler.movedJobs, hdone.1, if_neg Bool.false_ne_true, List.takeWhile_eq_self_iff]
  intro id hid
  obtain ⟨hlookup, hmove⟩ := hserved id hid
  rw [hlookup, hmove]
  rfl

/-- **What a scheduler pass does**, whatever is rejected. The due ids are the members
with a score up to now, in ascending order of their scores. Those that come before the
first rejected command are moved to the waiting lists, in that order, and nothing else
changes; without an exception those are all. -/
theorem due_jobs_moved (env : Env T) (now : Nat) (rejects : SchedulerCommand → Bool)
    (st : Store) :
    (∀ id, id ∈ dueJobs env now st ↔
      ∃ score, (id, score) ∈ (st.delayed env.queueName).entries ∧ score ≤ now) ∧
    (dueJobs env now st).Nodup ∧
    (dueJobs env now st).Pairwise (fun id id' => ∀ score score',
      (id, score) ∈ (st.delayed env.queueName).entries →
      (id', score') ∈ (st.delayed env.queueName).entries → Before (id, score) (id', score')) ∧
    DueJobsMoved env st (Scheduler.movedJobs rejects (dueJobs env now st))
      ((Scheduler.processDelayedJobs env now rejects).after st) ∧
    ((Scheduler.processDelayedJobs env now rejects).throws st = false →
      Scheduler.movedJobs rejects (dueJobs env now st) = dueJobs env now st) := by
  exact ⟨fun id => ZSet.mem_zrangebyscore, nodup_dueJobs env now st, ZSet.pairwise_zrangebyscore _ _,
    processDelayedJobs_moved env now rejects st, movedJobs_eq_dueJobs⟩

end Scheduler

/-! ## The watchdog -/

section Watchdog

/-- The ids have been taken for stalled: they are off the processing list and out of the
active-jobs hash, those with a record are waiting again, and nothing else has happened. -/
structure StalledJobsRequeued (env : Env T) (st : Store) (stalled : List JobId) (st' : Store) :
    Prop where
  active : (st'.activeJobs env.queueName).entries =
    (st.activeJobs env.queueName).entries.filter (·.1 ∉ stalled)
  /-- One entry of each is gone, if it had any: its newest. -/
  processing : st'.lists (.processingList env.queueName) =
    (st.lists (.processingList env.queueName)).diff stalled
  /-- Those with a record will be taken in this order, after the ids that were waiting
  already. -/
  waiting : ∀ priority, st'.queued (.waitingList env.queueName priority) =
    st.queued (.waitingList env.queueName priority) ++
      ofPriority st priority (stalled.filter fun id => !(st.jobs id).isEmpty)
  requeued_record : ∀ id ∈ stalled, (st.jobs id).isEmpty = false →
    st'.jobs id =
      { st.jobs id with
        status := some JobStatus.waiting.name
        attempts := some (requeueAttempts (st.jobs id)).toString }
  other_record : ∀ id, id ∉ stalled ∨ (st.jobs id).isEmpty → st'.jobs id = st.jobs id
  other_active : ∀ queue ≠ env.queueName, st'.activeJobs queue = st.activeJobs queue
  other_lists : ∀ key, key ≠ .processingList env.queueName →
    (∀ priority, key ≠ .waitingList env.queueName priority) → st'.lists key = st.lists key
  others : st'.delayed = st.delayed ∧ st'.heartbeats = st.heartbeats ∧
    st'.idempotency = st.idempotency ∧ st'.jobsProcessedTotal = st.jobsProcessedTotal ∧
    st'.jobsFailedTotal = st.jobsFailedTotal ∧ st'.processingTimeSum = st.processingTimeSum

/-- A pass that finds nothing. -/
theorem StalledJobsRequeued.nil (env : Env T) (st : Store) : StalledJobsRequeued env st [] st where
  active := by simp
  processing := rfl
  waiting priority := (List.append_nil _).symm
  requeued_record id hid := by cases hid
  other_record id _ := rfl
  other_active queue _ := rfl
  other_lists key _ _ := rfl
  others := ⟨rfl, rfl, rfl, rfl, rfl, rfl⟩

/-- A transaction writes no record but that of its job, and none where there is none. -/
theorem jobs_requeueTransaction (env : Env T) (st : Store) (id : JobId) :
    (requeueTransaction env st id (st.jobs id)).jobs =
      if (st.jobs id).isEmpty then st.jobs
      else Function.update st.jobs id
        { st.jobs id with
          status := some JobStatus.waiting.name
          attempts := some (requeueAttempts (st.jobs id)).toString } := by
  unfold requeueTransaction
  split <;> rfl

/-- Where the job of a transaction goes: off the processing list, and, with a record, to
the end of a waiting line. -/
theorem queued_requeueTransaction (env : Env T) (st : Store) (id : JobId) (priority : String) :
    (requeueTransaction env st id (st.jobs id)).queued (.waitingList env.queueName priority) =
      st.queued (.waitingList env.queueName priority) ++
        ofPriority st priority (if (st.jobs id).isEmpty then [] else [id]) := by
  have hremoved : ((st.hdelActive env.queueName id).lrem (.processingList env.queueName) 1
      id).queued (.waitingList env.queueName priority) =
        st.queued (.waitingList env.queueName priority) := by
    simp [Store.queued]
  unfold requeueTransaction
  split
  · rw [hremoved]
    exact (List.append_nil _).symm
  · rw [Store.queued_lpush, ofPriority_cons]
    simp only [ListKey.waitingList.injEq, true_and]
    rw [← hremoved, show ofPriority st priority [] = [] from rfl, List.append_nil]
    rfl

/-- One transaction. -/
theorem StalledJobsRequeued.cons (hid : id ∉ ids)
    (h : StalledJobsRequeued env (requeueTransaction env st id (st.jobs id)) ids st') :
    StalledJobsRequeued env st (id :: ids) st' := by
  have hjobs := jobs_requeueTransaction env st id
  -- the other records are as they were, so the rest of the pass does what it would have done
  have hrecords : ∀ id' ≠ id,
      (requeueTransaction env st id (st.jobs id)).jobs id' = st.jobs id' := by
    intro id' hne
    rw [hjobs]
    split
    · rfl
    · exact Function.update_of_ne hne _ _
  have hids : ∀ id' ∈ ids,
      (requeueTransaction env st id (st.jobs id)).jobs id' = st.jobs id' := by
    intro id' hid'
    exact hrecords id' fun heq => hid (heq ▸ hid')
  constructor
  case active =>
    rw [h.active, (entries_requeueTransaction env st id _).2]
    exact filter_not_mem_cons _ id ids
  case processing =>
    rw [h.processing, (entries_requeueTransaction env st id _).1, lrem_one, List.diff_cons]
  case waiting =>
    intro priority
    rw [h.waiting, queued_requeueTransaction, List.append_assoc, List.filter_cons]
    congr 1
    have hfilter : (ids.filter fun id' =>
        !((requeueTransaction env st id (st.jobs id)).jobs id').isEmpty) =
          ids.filter fun id' => !(st.jobs id').isEmpty := by
      apply List.filter_congr
      intro id' hid'
      rw [hids id' hid']
    rw [hfilter, ofPriority_congr fun id' hid' => hids id' (List.mem_of_mem_filter hid')]
    cases hrecord : (st.jobs id).isEmpty with
    | true => rfl
    | false => exact (List.filter_append [id] _).symm
  case requeued_record =>
    intro id' hid' hrecord
    rcases List.mem_cons.mp hid' with rfl | hid'
    · rw [h.other_record id' (.inl hid), hjobs, hrecord, if_neg Bool.false_ne_true,
        Function.update_self]
    · rw [h.requeued_record id' hid' (by rwa [hids id' hid']), hids id' hid']
  case other_record =>
    intro id' hid'
    -- not in the pass, or in it without a record
    rcases hid' with hid' | hrecord
    · rw [List.mem_cons, not_or] at hid'
      rw [h.other_record id' (.inl hid'.2), hrecords id' hid'.1]
    · have hsame : (requeueTransaction env st id (st.jobs id)).jobs id' = st.jobs id' := by
        by_cases heq : id' = id
        · rw [hjobs, ← heq, if_pos hrecord]
        · exact hrecords id' heq
      rw [h.other_record id' (.inr (by rwa [hsame])), hsame]
  case other_active =>
    intro queue hqueue
    rw [h.other_active queue hqueue, requeueTransaction]
    split <;> exact Function.update_of_ne hqueue _ _
  case other_lists =>
    intro key hprocessing hwaiting
    rw [h.other_lists key hprocessing hwaiting, requeueTransaction]
    split
    · exact Function.update_of_ne hprocessing _ _
    · rw [Store.lpush_lists, Function.update_of_ne (hwaiting _)]
      exact Function.update_of_ne hprocessing _ _
  case others =>
    have hothers := h.others
    unfold requeueTransaction at hothers
    split at hothers <;> exact hothers

/-- The loop over the ids found stalled. -/
theorem requeue_loop (hids : ids.Nodup) (st : Store) :
    StalledJobsRequeued env st ids
      (ids.foldl (fun st id => requeueTransaction env st id (st.jobs id)) st) := by
  induction ids generalizing st with
  | nil => exact .nil env st
  | cons id ids ih =>
    obtain ⟨hid, hids⟩ := List.nodup_cons.mp hids
    exact .cons hid (ih hids _)

/-- A pass requeues the ids it finds stalled. -/
theorem checkStalledJobs_requeued (env : Env T) (now : Nat) (st : Store) :
    StalledJobsRequeued env st (stalledIds env now st) (checkStalledJobs env now st) :=
  requeue_loop (nodup_stalledIds env now st) st

/-- **What a watchdog pass does.** The ids it takes for stalled are those on the
processing list or in the active-jobs hash that have no heartbeat, each once. All of them
are removed there; those with a record are pushed on the waiting list of their priority,
with one attempt more, and nothing else changes. The code adds the attempt in doubles; for a
safe integer that is the sum. -/
theorem stalled_jobs_requeued (env : Env T) (now : Nat) (st : Store) :
    (∀ id, id ∈ stalledIds env now st ↔
      (id ∈ (st.activeJobs env.queueName).keys ∨
        id ∈ st.lists (.processingList env.queueName)) ∧ st.alive now id = false) ∧
    (stalledIds env now st).Nodup ∧
    StalledJobsRequeued env st (stalledIds env now st) (checkStalledJobs env now st) ∧
    (∀ id n, parseIntField (st.jobs id).attempts = .int n → Safe n →
      requeueAttempts (st.jobs id) = .int (n + 1) ∧ toDouble (toDouble n + 1) = n + 1) := by
  refine ⟨fun id => mem_stalledIds, nodup_stalledIds env now st,
    checkStalledJobs_requeued env now st, ?_⟩
  intro id n hattempts hsafe
  rw [requeueAttempts, hattempts, JsNumber.addOne_int]
  exact ⟨rfl, toDouble_add_one hsafe⟩

end Watchdog

end DistriSys
