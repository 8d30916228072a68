import DistriSys.Core.Requests
import DistriSys.Core.Stats
import DistriSys.Js.Contracts
import Mathlib.Data.Multiset.Basic

/-!
# Metrics (`src/api/metrics.ts`)

A process counts what it does itself: the registry of the metrics library lives in its
memory, while the counters in Redis belong to all processes. A counter is the multiset of
the labels it was incremented with, the histogram that of its observations, in
milliseconds.

The calls of `Core.Requests` and `Core.ProcessJob` come back here with the metrics they
record; a metric is recorded in the turn that handles the answer of Redis. The SDK records
none.
-/

namespace DistriSys

open Js Redis

variable {T ε α : Type}

/-- The metrics of a process. -/
structure Registry where
  /-- labelled by the priority -/
  distriJobsEnqueuedTotal : Multiset String := 0
  /-- labelled by the job type -/
  distriJobsCompletedTotal : Multiset (Option String) := 0
  /-- labelled by the job type and by whether the failure is final -/
  distriJobsFailedTotal : Multiset (Option String × Bool) := 0
  /-- the job type and the time taken -/
  distriJobsProcessingDuration : Multiset (Option String × Nat) := 0
  distriQueueDepth : String → Option Nat := fun _ => none

namespace Registry

def jobEnqueued (queue : String) (r : Registry) : Registry :=
  { r with distriJobsEnqueuedTotal := queue ::ₘ r.distriJobsEnqueuedTotal }

def jobCompleted (jobType : Option String) (r : Registry) : Registry :=
  { r with distriJobsCompletedTotal := jobType ::ₘ r.distriJobsCompletedTotal }

def jobFailed (jobType : Option String) (final : Bool) (r : Registry) : Registry :=
  { r with distriJobsFailedTotal := (jobType, final) ::ₘ r.distriJobsFailedTotal }

def observeDuration (jobType : Option String) (elapsed : Nat) (r : Registry) : Registry :=
  { r with
    distriJobsProcessingDuration := (jobType, elapsed) ::ₘ r.distriJobsProcessingDuration }

def setDepth (queue : String) (depth : Nat) (r : Registry) : Registry :=
  { r with distriQueueDepth := Function.update r.distriQueueDepth queue (some depth) }

end Registry

/-- A process at work: Redis, and its own metrics. -/
structure Node where
  store : Store
  registry : Registry

namespace Node

/-- What a call does in Redis. -/
def redis (x : Async ε Store α) : Async ε Node α :=
  .within Node.store (fun st node => { node with store := st }) x

/-- The process with another metric. -/
def count (f : Registry → Registry) (node : Node) : Node :=
  { node with registry := f node.registry }

/-- A metric is recorded. -/
def record (f : Registry → Registry) : Async ε Node Unit := modify (count f)

/-- `enqueue`; the SDK's has no metrics. -/
def enqueue (env : Env T) (c : EnqueueCircumstances) (id : JobId) (call : EnqueueCall T) :
    Async EnqueueCommand Node EnqueueResult := do
  let result ← redis (Queue.enqueue env c id call)
  match call, result with
  | .core .., .job _ =>
    record (.jobEnqueued call.priority.name)
    return result
  | _, _ => return result

/-- The `catch` block. -/
def failJob (env : Env T) (c : Circumstances) (jobId : JobId) (job : Job T) :
    Async Exception Node Unit := do
  redis (c.issueBeating env.config jobId .countFailure fun st => st.incrFailed)
  let elapsed := c.now .countFailure - c.now .beat
  record (.observeDuration job.type elapsed)
  let nextAttempt := job.attempts.addOne
  if nextAttempt.lt job.maxAttempts then
    record (.jobFailed job.type false)
    let delay := calculateBackoff env.config nextAttempt.toNat c.draw
    redis (c.issueBeating env.config jobId .writeDelayed fun st => st.hmset jobId
      { status := some JobStatus.delayed.name, attempts := some nextAttempt.toString })
    redis (c.issueBeating env.config jobId .zaddDelayed fun st =>
      st.zadd env.queueName (c.now .writeDelayed + delay) jobId)
  else
    record (.jobFailed job.type true)
    redis (c.issueBeating env.config jobId .writeDead fun st => st.hmset jobId
      { status := some JobStatus.dead.name, attempts := some nextAttempt.toString })
    redis (c.issueBeating env.config jobId .lpushDead fun st =>
      st.lpush (.deadList env.queueName) jobId)

/-- From `await handler(job)` on. -/
def runHandler (env : Env T) (c : Circumstances) (jobId : JobId) (job : Job T) :
    Async Exception Node Unit := do
  let startTime := c.now .beat
  try
    if c.outcome = .reject then throw .handler
    let elapsed := c.settledAt - startTime
    redis (c.issueBeating env.config jobId .complete fun st => st.completeJob jobId elapsed)
    record (.jobCompleted job.type)
    record (.observeDuration job.type elapsed)
  catch _ =>
    failJob env c jobId job
  finally
    redis (cleanUp env c jobId)

/-- `processJob` of worker `w`. -/
def processJob (env : Env T) (w : Nat) (handlers : List String) (c : Circumstances)
    (jobId : JobId) : Async Exception Node Unit := do
  let jobHash ← redis (.query (c.rejects .fetch) (.rejected .fetch) fun st => st.jobs jobId)
  if jobHash.isEmpty then
    return
  match deserializeJob env.json jobHash with
  | .error e => throw (.decode e)
  | .ok job =>
    redis (c.issue .markActive fun st => st.hmset jobId { status := some JobStatus.active.name })
    if hasHandler handlers job = false then
      redis (c.issue .markFailed fun st =>
        st.hmset jobId { status := some JobStatus.failed.name })
      return
    redis (c.issue .register fun st => st.hsetActive env.queueName jobId
      { workerId := w + 1, startedAt := c.now .markActive, timeout := env.config.maxDelayMs })
    redis (c.issue .beat fun st => st.setHeartbeat (c.now .beat) env.config.heartbeatTtlSec jobId)
    runHandler env c jobId job

/-- One turn of `workerLoop`. -/
def turn (env : Env T) (w : Nat) (handlers : List String) (t : Turn) (node : Node) : Node :=
  match (redis (WorkerPool.takeJob env t.polls priorities)).run node with
  | .ok (some jobId) node => (processJob env w handlers t.call jobId).after node
  | .ok none node => node
  | .error _ node => node

/-- `GET /stats`, which also sets the gauges. -/
def stats (env : Env T) (rejected : Bool) : Async Unit Node StatsResponse := do
  let r ← redis (.query rejected () fun st => DistriSys.stats env st)
  record (.setDepth "high" r.queues.high)
  record (.setDepth "normal" r.queues.normal)
  record (.setDepth "low" r.queues.low)
  record (.setDepth "delayed" r.queues.delayed)
  record (.setDepth "dead" r.queues.dead)
  return r

end Node

/-! ## Several processes -/

/-- A call that some process makes, and what it meets with. -/
inductive ProcessCall (T : Type) where
  | enqueue (c : EnqueueCircumstances) (id : JobId) (call : EnqueueCall T)
  | work (w : Nat) (handlers : List String) (t : Turn)
  | schedule (now : Nat) (rejects : SchedulerCommand → Bool)
  | watch (now : Nat) (rejects : WatchdogCommand → Bool)
  | retry (rejects : RetryCommand → Bool) (id : JobId)
  | stats (rejected : Bool)

/-- What a call leaves in Redis. -/
def ProcessCall.after (env : Env T) (st : Store) : ProcessCall T → Store
  | .enqueue c id call => (Queue.enqueue env c id call).after st
  | .work w handlers t => WorkerPool.turn env w handlers t st
  | .schedule now rejects => (Scheduler.processDelayedJobs env now rejects).after st
  | .watch now rejects => (Watchdog.checkStalledJobs env now rejects).after st
  | .retry rejects id => (retryRoute env rejects id).after st
  | .stats _ => st

/-- What it leaves in Redis and in the registry of its process. -/
def ProcessCall.afterOn (env : Env T) (node : Node) : ProcessCall T → Node
  | .enqueue c id call => (Node.enqueue env c id call).after node
  | .work w handlers t => node.turn env w handlers t
  | .schedule now rejects => (Node.redis (Scheduler.processDelayedJobs env now rejects)).after node
  | .watch now rejects => (Node.redis (Watchdog.checkStalledJobs env now rejects)).after node
  | .retry rejects id => (Node.redis (retryRoute env rejects id)).after node
  | .stats rejected => (Node.stats env rejected).after node

/-- The processes of a deployment, and the Redis they share. -/
structure Deployment (processes : Nat) where
  store : Store
  registries : Fin processes → Registry

namespace Deployment

variable {processes : Nat}

/-- Nobody has done anything. -/
def start (processes : Nat) : Deployment processes where
  store := .empty
  registries _ := {}

/-- The process as it sees itself. -/
def node (d : Deployment processes) (i : Fin processes) : Node where
  store := d.store
  registry := d.registries i

/-- Process `i` makes a call. -/
def call (env : Env T) (d : Deployment processes) (i : Fin processes) (c : ProcessCall T) :
    Deployment processes where
  store := (c.afterOn env (d.node i)).store
  registries := Function.update d.registries i (c.afterOn env (d.node i)).registry

/-- The processes make calls, one after the other. -/
def runAll (env : Env T) (d : Deployment processes) (calls : List (Fin processes × ProcessCall T)) :
    Deployment processes :=
  calls.foldl (fun d c => d.call env c.1 c.2) d

end Deployment

end DistriSys
