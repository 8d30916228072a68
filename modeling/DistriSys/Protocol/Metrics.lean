import DistriSys.Core.Metrics
import DistriSys.Protocol.Faults
import Mathlib.Algebra.BigOperators.Fin

/-!
# Metrics and counters agree

Completions and failures are counted twice: by the process, in its registry, and for all
processes together, in Redis. The code keeps the two apart, and any of its commands may be
rejected in between.

- `Agrees`: the counters in Redis are what this process and the others have recorded. Every
  call keeps it (`keeps_enqueue`, `keeps_processJob`, …);
- `refines_enqueue`, `refines_processJob`, …: recording metrics changes nothing in Redis;
- **`metrics_agree`**: both, over any sequence of calls by any number of processes.

A call may break off at any command. Between the reply to a command that counts and the line that
records it in the registry the code awaits nothing, so the two agree wherever a call can break
off. The rules for this are those of `Js.Contracts`.
-/

namespace DistriSys

open Js Js.Async Redis

variable {T ε α : Type}

/-! ## Calls that leave the counters alone -/

/-- The call leaves the counters alone. -/
def Uncounted (x : Async ε Store α) : Prop := ∀ v, Keeps (fun st => st.counters = v) x

section Uncounted

variable {env : Env T} {e : ε} {refused : Bool}

/-- A command that leaves the counters alone. -/
theorem Uncounted.request {f : Store → Store} (h : ∀ st, (f st).counters = st.counters) :
    Uncounted (request refused e f) :=
  fun _ => .request fun st hst => (h st).trans hst

/-- `enqueue` counts nothing in Redis; its metric is counted by the process. -/
theorem uncounted_queue_enqueue (c : EnqueueCircumstances) (id : JobId) (call : EnqueueCall T) :
    Uncounted (Queue.enqueue env c id call) := by
  intro v
  refine .bind (.request fun _ h => h) fun _ => ?_
  cases call.idempotencyKey with
  | some key =>
    refine .bind (.exchange fun st h => ?_) fun claimedId => ?_
    · rw [← h]
      unfold Store.idempotentEnqueue
      split <;> rfl
    · split
      · exact .bind (.request fun _ h => h) fun _ => .pure
      · exact .pure
  | none => exact .bind (.request fun _ h => h) fun _ => .pure

/-- Taking a job counts nothing. -/
theorem uncounted_takeJob (rejects : JobPriority → Bool) (ps : List JobPriority) :
    Uncounted (WorkerPool.takeJob env rejects ps) := by
  intro v
  induction ps with
  | nil => exact .pure
  | cons p rest ih =>
    refine .bind (.exchange fun st h => ?_) fun jobId => ?_
    · split
      · next jobId st' hpop =>
        obtain ⟨rest, -, rfl⟩ := Store.rpoplpush_eq_some hpop
        exact h
      · exact h
    · cases jobId with
      | some jobId => exact .pure
      | none => exact ih

/-- A scheduler pass counts nothing. -/
theorem uncounted_processDelayedJobs (now : Nat) (rejects : SchedulerCommand → Bool) :
    Uncounted (Scheduler.processDelayedJobs env now rejects) := by
  have hloop : ∀ due, Uncounted (Scheduler.moveDueJobs env rejects due) := by
    intro due v
    induction due with
    | nil => exact .pure
    | cons jobId rest ih =>
      exact .bind .query fun priority => .bind (.request fun _ h => h) fun _ => ih
  exact fun v => .bind .query fun due => hloop due v

theorem counters_requeueTransaction (st : Store) (jobId : JobId) (jobHash : JobHash) :
    (requeueTransaction env st jobId jobHash).counters = st.counters := by
  unfold requeueTransaction
  split <;> rfl

/-- A watchdog pass counts nothing, the requeues included. -/
theorem uncounted_checkStalledJobs (now : Nat) (rejects : WatchdogCommand → Bool) :
    Uncounted (Watchdog.checkStalledJobs env now rejects) := by
  have hloop : ∀ stalled, Uncounted (Watchdog.requeueStalledJobs env rejects stalled) := by
    intro stalled v
    induction stalled with
    | nil => exact .pure
    | cons jobId rest ih =>
      refine .bind .query fun jobHash => .bind (.request fun st h => ?_) fun _ => ih
      exact (counters_requeueTransaction st jobId jobHash).trans h
  intro v
  refine .bind .query fun activeIds => .bind .query fun processingIds => ?_
  dsimp only
  split
  · exact .pure
  · exact .bind .query fun stalled => hloop stalled v

/-- A retry counts nothing. -/
theorem uncounted_retryRoute (rejects : RetryCommand → Bool) (id : JobId) :
    Uncounted (retryRoute env rejects id) := by
  intro v
  refine .bind .query fun hash => ?_
  split
  · exact .pure
  · cases deserializeJob env.json hash with
    | error e => exact .throw
    | ok job =>
      dsimp only
      split
      · exact .pure
      · exact .bind (.request fun _ h => h) fun _ => .pure

end Uncounted

/-! ## The counters of Redis and those of a process -/

/-- The sum of the times a process has observed. -/
def Registry.duration (r : Registry) : Nat := (r.distriJobsProcessingDuration.map Prod.snd).sum

/-- The counters in Redis are those of this process, and what the others have counted. -/
structure Agrees (completed failed duration : Nat) (node : Node) : Prop where
  processed : node.store.jobsProcessedTotal =
    completed + node.registry.distriJobsCompletedTotal.card
  failed : node.store.jobsFailedTotal = failed + node.registry.distriJobsFailedTotal.card
  duration : node.store.processingTimeSum ≤ duration + node.registry.duration
  /-- Each completion and each failure has been timed. -/
  observed : node.registry.distriJobsProcessingDuration.map Prod.fst =
    node.registry.distriJobsCompletedTotal + node.registry.distriJobsFailedTotal.map Prod.fst

section Agrees

variable {env : Env T} {c : Circumstances} {config : QueueConfig} {jobId : JobId} {job : Job T}
  {completed failed duration : Nat} {node : Node} {x : Async ε Store α}

/-- The agreement is about the counters of the store only. -/
theorem Agrees.of_counters (h : Agrees completed failed duration node) {st : Store}
    (hst : st.counters = node.store.counters) :
    Agrees completed failed duration { node with store := st } := by
  simp only [Store.counters, Prod.mk.injEq] at hst
  obtain ⟨hprocessed, hfailed, htime⟩ := hst
  exact ⟨hprocessed.trans h.processed, hfailed.trans h.failed, htime.le.trans h.duration, h.observed⟩

/-- What leaves the counters alone keeps the agreement. -/
theorem Uncounted.keeps (h : Uncounted x) : Keeps (Agrees completed failed duration) (Node.redis x) := by
  refine .within fun node hnode => ?_
  intro st hst
  subst hst
  have hend := h node.store.counters node.store rfl
  cases hrun : x.run node.store with
  | ok a st' =>
    rw [hrun] at hend
    exact hnode.of_counters hend
  | error e st' =>
    rw [hrun] at hend
    exact hnode.of_counters hend

/-- A command that does not count. -/
theorem keeps_issue {command : Command} {f : Store → Store}
    (h : ∀ st, (f st).counters = st.counters) :
    Keeps (Agrees completed failed duration) (Node.redis (c.issue command f)) :=
  (Uncounted.request h).keeps

/-- A command of `processJob`, with the heartbeats renewed while it is awaited. -/
theorem keeps_issueBeating {command : Command} {f : Store → Store}
    (h : ∀ st, (f st).counters = st.counters) :
    Keeps (Agrees completed failed duration) (Node.redis (c.issueBeating config jobId command f)) :=
  Uncounted.keeps fun v => .bind (.modify fun _ hst => hst) fun _ => Uncounted.request h v

/-- A command that counts, and the turn after it. -/
theorem ends_issueBeating {command : Command} {f : Store → Store} {Q : Node → Prop}
    (h : ∀ node, Agrees completed failed duration node → Q { node with store := f node.store }) :
    Ends (Agrees completed failed duration) (Node.redis (c.issueBeating config jobId command f))
      (fun _ => Q) (Agrees completed failed duration) := by
  refine .within fun node hnode => ?_
  have hrenew : Agrees completed failed duration { node with
      store := node.store.renew config.heartbeatTtlSec jobId (c.renewals command) } :=
    hnode.of_counters rfl
  refine Ends.bind (Q := fun _ st =>
    st = node.store.renew config.heartbeatTtlSec jobId (c.renewals command))
    (.modify fun st hst => by rw [hst]) fun _ => ?_
  refine .request ?_ ?_
  · rintro st rfl
    exact h _ hrenew
  · rintro st rfl
    exact hrenew

/-- The failure branch: the `INCR` comes with the metrics of the failure, and when it is
rejected none are recorded. -/
theorem keeps_failJob : Keeps (Agrees completed failed duration) (Node.failJob env c jobId job) := by
  -- after the `INCR`, the two metrics of the failure are still to be recorded
  refine Ends.bind (Q := fun _ node => ∀ final, Agrees completed failed duration
    ((node.count (.observeDuration job.type (c.now .countFailure - c.now .beat))).count
      (.jobFailed job.type final))) (ends_issueBeating ?_) fun _ => ?_
  · rintro node ⟨hprocessed, hfailed, htime, hobserved⟩ final
    refine ⟨hprocessed, ?_, ?_, ?_⟩
    · simp [Node.count, Registry.observeDuration, Registry.jobFailed, Store.incrFailed, hfailed]
      omega
    · simp only [Node.count, Registry.observeDuration, Registry.jobFailed, Registry.duration,
        Multiset.map_cons, Multiset.sum_cons, Store.incrFailed]
      simp only [Registry.duration] at htime
      omega
    · simp [Node.count, Registry.observeDuration, Registry.jobFailed, hobserved]
  refine Ends.bind (Q := fun _ node => ∀ final, Agrees completed failed duration
    (node.count (.jobFailed job.type final))) (.modify fun _ h => h) fun _ => ?_
  dsimp only
  split
  · refine Ends.bind (Q := fun _ => Agrees completed failed duration) (.modify fun _ h => h false)
      fun _ => ?_
    exact Keeps.bind (keeps_issueBeating fun _ => rfl) fun _ => keeps_issueBeating fun _ => rfl
  · refine Ends.bind (Q := fun _ => Agrees completed failed duration) (.modify fun _ h => h true)
      fun _ => ?_
    exact Keeps.bind (keeps_issueBeating fun _ => rfl) fun _ => keeps_issueBeating fun _ => rfl

/-- The `try` block. -/
theorem keeps_try : Keeps (Agrees completed failed duration) (do
      if c.outcome = .reject then throw .handler
      Node.redis (c.issueBeating config jobId .complete fun st =>
        st.completeJob jobId (c.settledAt - c.now .beat))
      Node.record (.jobCompleted job.type)
      Node.record (.observeDuration job.type (c.settledAt - c.now .beat))) := by
  have hcomplete : Keeps (Agrees completed failed duration) (do
      Node.redis (c.issueBeating config jobId .complete fun st =>
        st.completeJob jobId (c.settledAt - c.now .beat))
      Node.record (.jobCompleted job.type)
      Node.record (.observeDuration job.type (c.settledAt - c.now .beat))) := by
    -- after the transaction, the two metrics of the completion are still to be recorded
    refine Ends.bind (Q := fun _ node => Agrees completed failed duration
      ((node.count (.jobCompleted job.type)).count
        (.observeDuration job.type (c.settledAt - c.now .beat)))) (ends_issueBeating ?_) fun _ => ?_
    · rintro node ⟨hprocessed, hfailed, htime, hobserved⟩
      refine ⟨?_, hfailed, ?_, ?_⟩
      · simp [Node.count, Registry.observeDuration, Registry.jobCompleted, hprocessed]
        omega
      · simp only [Node.count, Registry.observeDuration, Registry.jobCompleted, Registry.duration,
          Multiset.map_cons, Multiset.sum_cons, Store.completeJob]
        simp only [Registry.duration] at htime
        omega
      · simp [Node.count, Registry.observeDuration, Registry.jobCompleted, hobserved]
    · exact Ends.bind (Q := fun _ node => Agrees completed failed duration
        (node.count (.observeDuration job.type (c.settledAt - c.now .beat))))
        (.modify fun _ h => h) fun _ => .modify fun _ h => h
  split
  · exact .bind .throw fun _ => hcomplete
  · exact hcomplete

/-- The success branch increments the metric after the transaction. When the transaction is
rejected the failure branch runs instead, with an `INCR` of its own. -/
theorem keeps_runHandler :
    Keeps (Agrees completed failed duration) (Node.runHandler env c jobId job) :=
  .tryFinally (.tryCatch keeps_try fun _ => keeps_failJob) (keeps_issueBeating fun _ => rfl)

/-- A whole call: the `finally` block counts nothing. -/
theorem keeps_processJob {w : Nat} {handlers : List String} :
    Keeps (Agrees completed failed duration) (Node.processJob env w handlers c jobId) := by
  refine .bind (Uncounted.keeps fun _ => .query) fun jobHash => ?_
  split
  · exact .pure
  · cases deserializeJob env.json jobHash with
    | error e => exact .throw
    | ok job =>
      refine .bind (keeps_issue fun _ => rfl) fun _ => ?_
      split
      · exact .bind (keeps_issue fun _ => rfl) fun _ => .pure
      · refine .bind (keeps_issue fun _ => rfl) fun _ => ?_
        exact .bind (keeps_issue fun _ => rfl) fun _ => keeps_runHandler

/-- One turn of the loop: a poll, and a call if it found something. -/
theorem agrees_turn {w : Nat} {handlers : List String} {t : Turn}
    (h : Agrees completed failed duration node) :
    Agrees completed failed duration (Node.turn env w handlers t node) := by
  have htake : Uncounted (WorkerPool.takeJob env t.polls priorities) := uncounted_takeJob _ _
  have hpoll := htake.keeps node h
  unfold Node.turn
  split
  · next jobId node' hrun =>
    rw [hrun] at hpoll
    exact keeps_processJob.after hpoll
  · next node' hrun =>
    rw [hrun] at hpoll
    exact hpoll
  · next e node' hrun =>
    rw [hrun] at hpoll
    exact hpoll

theorem keeps_enqueue {e : EnqueueCircumstances} {id : JobId} {call : EnqueueCall T} :
    Keeps (Agrees completed failed duration) (Node.enqueue env e id call) := by
  refine .bind (uncounted_queue_enqueue e id call).keeps fun result => ?_
  cases call <;> cases result
  · exact .bind (.modify fun node h => ⟨h.processed, h.failed, h.duration, h.observed⟩) fun _ => .pure
  all_goals exact .pure

/-- `GET /stats` only reads. -/
theorem keeps_stats {rejected : Bool} :
    Keeps (Agrees completed failed duration) (Node.stats env rejected) := by
  have hset : ∀ (queue : String) (depth : Nat), Keeps (Agrees completed failed duration)
      (Node.record (ε := Unit) (.setDepth queue depth)) := by
    intro queue depth
    exact .modify fun node h => ⟨h.processed, h.failed, h.duration, h.observed⟩
  refine .bind (Uncounted.keeps fun _ => .query) fun r => ?_
  refine .bind (hset _ _) fun _ => .bind (hset _ _) fun _ => .bind (hset _ _) fun _ => ?_
  exact .bind (hset _ _) fun _ => .bind (hset _ _) fun _ => .pure

end Agrees

/-! ## Metrics change nothing in Redis -/

section Refinement

variable {env : Env T} {c : Circumstances} {jobId : JobId} {job : Job T} {x : Async ε Store α}

/-- Without its metrics, a process does on the store what the model without metrics does. -/
theorem refines_redis : Refines Node.store (Node.redis x) x := .within fun _ _ => rfl

/-- A metric is no step of the model without metrics. -/
theorem refines_record {f : Registry → Registry} {k : Unit → Async ε Node α}
    (h : Refines Node.store (k ()) x) : Refines Node.store (Node.record f >>= k) x :=
  .silent (fun _ => rfl) h

theorem refines_enqueue {e : EnqueueCircumstances} {id : JobId} {call : EnqueueCall T} :
    Refines Node.store (Node.enqueue env e id call) (Queue.enqueue env e id call) := by
  refine .bind_unseen refines_redis fun result => ?_
  cases call <;> cases result
  · exact refines_record (.pure _)
  all_goals exact .pure _

theorem refines_failJob :
    Refines Node.store (Node.failJob env c jobId job) (failJob env c jobId job) := by
  refine .bind refines_redis fun _ => refines_record ?_
  dsimp only
  split
  · exact refines_record (.bind refines_redis fun _ => refines_redis)
  · exact refines_record (.bind refines_redis fun _ => refines_redis)

theorem refines_runHandler :
    Refines Node.store (Node.runHandler env c jobId job) (runHandler env c jobId job) := by
  refine .tryFinally (.tryCatch ?_ fun _ => refines_failJob) refines_redis
  have hcomplete : Refines Node.store (do
      Node.redis (c.issueBeating env.config jobId .complete fun st =>
        st.completeJob jobId (c.settledAt - c.now .beat))
      Node.record (.jobCompleted job.type)
      Node.record (.observeDuration job.type (c.settledAt - c.now .beat)))
      (c.issueBeating env.config jobId .complete fun st =>
        st.completeJob jobId (c.settledAt - c.now .beat)) :=
    .bind_unseen refines_redis fun _ => refines_record (.unseen fun _ => rfl)
  split
  · exact .bind (.throw _) fun _ => hcomplete
  · exact hcomplete

/-- So a call with metrics is the call of `Core.ProcessJob`, whatever is rejected. -/
theorem refines_processJob {w : Nat} {handlers : List String} :
    Refines Node.store (Node.processJob env w handlers c jobId)
      (processJob env w handlers c jobId) := by
  refine .bind refines_redis fun jobHash => ?_
  split
  · exact .pure _
  · cases deserializeJob env.json jobHash with
    | error e => exact .throw _
    | ok job =>
      refine .bind refines_redis fun _ => ?_
      split
      · exact .bind refines_redis fun _ => .pure _
      · exact .bind refines_redis fun _ => .bind refines_redis fun _ => refines_runHandler

/-- The store after a turn, with or without metrics. -/
theorem store_turn {w : Nat} {handlers : List String} {t : Turn} {node : Node} :
    (node.turn env w handlers t).store = WorkerPool.turn env w handlers t node.store := by
  have hpoll := refines_redis (x := WorkerPool.takeJob env t.polls priorities) node
  rw [Node.turn, WorkerPool.turn, ← hpoll]
  split
  · next jobId node' hrun =>
    rw [hrun]
    exact refines_processJob.after node'
  · next node' hrun => rw [hrun, project]
  · next e node' hrun => rw [hrun, project]

theorem refines_stats {rejected : Bool} :
    Refines Node.store (Node.stats env rejected)
      (.query rejected () fun st => stats env st) := by
  refine .bind_unseen refines_redis fun r => ?_
  exact refines_record <| refines_record <| refines_record <| refines_record <|
    refines_record <| .pure r

end Refinement

/-! ## Deployments -/

section Deployments

variable {env : Env T} {processes : Nat} {d : Deployment processes}

/-- A call keeps the agreement also when it throws. -/
theorem agrees_afterOn {completed failed duration : Nat} {node : Node} (env : Env T)
    (c : ProcessCall T) (h : Agrees completed failed duration node) :
    Agrees completed failed duration (c.afterOn env node) := by
  cases c with
  | enqueue c id call => exact keeps_enqueue.after h
  | work w handlers t => exact agrees_turn h
  | schedule now rejects => exact (uncounted_processDelayedJobs now rejects).keeps.after h
  | watch now rejects => exact (uncounted_checkStalledJobs now rejects).keeps.after h
  | retry rejects id => exact (uncounted_retryRoute rejects id).keeps.after h
  | stats rejected => exact keeps_stats.after h

theorem store_afterOn (node : Node) (c : ProcessCall T) :
    (c.afterOn env node).store = c.after env node.store := by
  cases c with
  | enqueue c id call => exact refines_enqueue.after node
  | work w handlers t => exact store_turn
  | stats rejected =>
    refine (refines_stats.after node).trans ?_
    cases rejected <;> rfl
  | _ => exact refines_redis.after node

/-- A sum over all processes, of which one has changed. -/
theorem sum_update (f : Registry → Nat) (registries : Fin processes → Registry)
    (i : Fin processes) (registry : Registry) :
    ∑ j, f (Function.update registries i registry j) =
      ∑ j ∈ Finset.univ.erase i, f (registries j) + f registry := by
  rw [← Finset.sum_erase_add _ _ (Finset.mem_univ i), Function.update_self]
  congr 1
  refine Finset.sum_congr rfl fun j hj => ?_
  rw [Function.update_of_ne (Finset.ne_of_mem_erase hj)]

/-- The counters in Redis are what the processes have recorded. -/
structure Deployment.Agrees (d : Deployment processes) : Prop where
  processed : d.store.jobsProcessedTotal =
    ∑ i, (d.registries i).distriJobsCompletedTotal.card
  failed : d.store.jobsFailedTotal = ∑ i, (d.registries i).distriJobsFailedTotal.card
  duration : d.store.processingTimeSum ≤ ∑ i, (d.registries i).duration
  observed : ∀ i, (d.registries i).distriJobsProcessingDuration.map Prod.fst =
    (d.registries i).distriJobsCompletedTotal +
      (d.registries i).distriJobsFailedTotal.map Prod.fst

/-- A call of one process: the others' totals do not change, the sums change by what this one
counted. -/
theorem Deployment.Agrees.call (h : d.Agrees) (i : Fin processes) (c : ProcessCall T) :
    (d.call env i c).Agrees := by
  have hsum : ∀ f : Registry → Nat, ∑ j, f (d.registries j) =
      ∑ j ∈ Finset.univ.erase i, f (d.registries j) + f (d.registries i) := fun f =>
    (Finset.sum_erase_add _ _ (Finset.mem_univ i)).symm
  have hnode : DistriSys.Agrees (∑ j ∈ Finset.univ.erase i,
        (d.registries j).distriJobsCompletedTotal.card)
      (∑ j ∈ Finset.univ.erase i, (d.registries j).distriJobsFailedTotal.card)
      (∑ j ∈ Finset.univ.erase i, (d.registries j).duration) (d.node i) :=
    ⟨h.processed.trans (hsum fun r => r.distriJobsCompletedTotal.card),
      h.failed.trans (hsum fun r => r.distriJobsFailedTotal.card),
      h.duration.trans (hsum Registry.duration).le, h.observed i⟩
  obtain ⟨hprocessed, hfailed, hduration, hobserved⟩ := agrees_afterOn env c hnode
  constructor
  · exact hprocessed.trans (sum_update (fun r => r.distriJobsCompletedTotal.card) _ i _).symm
  · exact hfailed.trans (sum_update (fun r => r.distriJobsFailedTotal.card) _ i _).symm
  · exact hduration.trans (sum_update Registry.duration _ i _).ge
  · intro j
    by_cases hj : j = i
    · subst hj
      simp only [Deployment.call, Function.update_self]
      exact hobserved
    · simp only [Deployment.call, Function.update_of_ne hj]
      exact h.observed j

/-- By induction on the calls, one process after the other. -/
theorem Deployment.Agrees.runAll (calls : List (Fin processes × ProcessCall T)) :
    ∀ {d : Deployment processes}, d.Agrees → (d.runAll env calls).Agrees := by
  induction calls with
  | nil => exact fun h => h
  | cons c rest ih => exact fun h => ih (h.call c.1 c.2)

theorem agrees_start : (Deployment.start processes).Agrees where
  processed := Finset.sum_const_zero.symm
  failed := Finset.sum_const_zero.symm
  duration := Nat.zero_le _
  observed _ := rfl

/-- The store of a deployment is that of the calls in their order, whoever made them. -/
theorem store_runAll (calls : List (Fin processes × ProcessCall T)) :
    ∀ d : Deployment processes, (d.runAll env calls).store =
      calls.foldl (fun st c => c.2.after env st) d.store := by
  induction calls with
  | nil => exact fun _ => rfl
  | cons c rest ih =>
    intro d
    rw [Deployment.runAll, List.foldl_cons, List.foldl_cons]
    refine (ih _).trans ?_
    rw [Deployment.call, store_afterOn]
    rfl

/-- **Metrics and counters agree.** Any number of processes make any calls, any commands of
which are rejected: the counters in Redis are the sums of what the processes have recorded,
each process has timed what it completed and what failed, and Redis is as it would be
without metrics. -/
theorem metrics_agree (env : Env T) (processes : Nat)
    (calls : List (Fin processes × ProcessCall T)) :
    ((Deployment.start processes).runAll env calls).Agrees ∧
      ((Deployment.start processes).runAll env calls).store =
        calls.foldl (fun st c => c.2.after env st) .empty :=
  ⟨agrees_start.runAll calls, store_runAll calls _⟩

end Deployments

end DistriSys
