import DistriSys.Core.Operations
import DistriSys.Core.Records

/-!
# Calls in which Redis may reject a command

`enqueue`, the poll of a worker, the passes of the scheduler and of the watchdog, and a
retry request as whole calls, with the exceptions that rejected commands raise;
`processJob` is in `Core.ProcessJob`. A rejected command or transaction has no effect and
ends the call.

Each call has its own type of commands (`EnqueueCommand`, `SchedulerCommand`, …), so that the
circumstances of a call are a choice of commands to reject. A pass issues one command for
each job it has found, and these are told apart by the job: a pass can be broken off at any
of them. The passes catch and log what is thrown, so a broken pass returns like any other.
-/

namespace DistriSys

open Js Redis

variable {T : Type}

/-! ## `enqueue` (`src/queue/Queue.ts`, `distri-sdk/Queue.ts`) -/

/-- The Redis commands of `enqueue`. -/
inductive EnqueueCommand where
  /-- `saveJob`: `HMSET job:<id>` -/
  | save
  /-- the `idempotentEnqueue` script -/
  | claim
  /-- `LPUSH` on the waiting list -/
  | push
  /-- `DEL job:<id>` after a collision -/
  | discard
deriving DecidableEq

/-- What a call of `enqueue` meets with. -/
structure EnqueueCircumstances where
  /-- The commands Redis rejects. -/
  rejects : EnqueueCommand → Bool
  /-- The clock when the job is built. -/
  createdAt : Nat
  /-- The clock when the script runs. -/
  claimedAt : Nat

/-- `enqueue`, under the fresh `id`. -/
def Queue.enqueue (env : Env T) (c : EnqueueCircumstances) (id : JobId) (call : EnqueueCall T) :
    Async EnqueueCommand Store EnqueueResult := do
  let job := call.job id c.createdAt
  let waitList := ListKey.waitingList env.queueName job.priority
  .request (c.rejects .save) .save fun st => saveJob st id (call.record env.json id c.createdAt)
  match call.idempotencyKey with
  | some key =>
    let claimedId ← .exchange (c.rejects .claim) .claim fun st =>
      st.idempotentEnqueue c.claimedAt key waitList id idempotencyTtlSec
    if claimedId ≠ id then
      -- the orphaned job hash is cleaned up
      .request (c.rejects .discard) .discard fun st => st.delJob id
      return .existing claimedId
    else
      return .job id
  | none =>
    .request (c.rejects .push) .push fun st => st.lpush waitList id
    return .job id

/-! ## `processDelayedJobs` (`src/scheduler/Scheduler.ts`) -/

/-- The Redis commands of a pass; the due ids are distinct, so it issues each once. -/
inductive SchedulerCommand where
  /-- `ZRANGEBYSCORE` -/
  | range
  /-- `HGET job:<id> priority` -/
  | lookup (jobId : JobId)
  /-- the `ZREM` + `LPUSH` + `HSET` transaction -/
  | move (jobId : JobId)
deriving DecidableEq

/-- The loop over the due ids. -/
def Scheduler.moveDueJobs (env : Env T) (rejects : SchedulerCommand → Bool) :
    List JobId → Async SchedulerCommand Store Unit
  | [] => return
  | jobId :: rest => do
    let priority ← .query (rejects (.lookup jobId)) (.lookup jobId) fun st =>
      orNormal (st.jobs jobId).priority
    .request (rejects (.move jobId)) (.move jobId) fun st =>
      releaseTransaction env st jobId priority
    moveDueJobs env rejects rest

/-- `processDelayedJobs` at time `now`. -/
def Scheduler.processDelayedJobs (env : Env T) (now : Nat) (rejects : SchedulerCommand → Bool) :
    Async SchedulerCommand Store Unit := do
  let dueJobs ← .query (rejects .range) .range fun st =>
    (st.delayed env.queueName).zrangebyscore now
  moveDueJobs env rejects dueJobs

/-! ## The poll of `workerLoop` (`src/worker/WorkerPool.ts`) -/

/-- `RPOPLPUSH` on one list after the other, until one yields a job. -/
def WorkerPool.takeJob (env : Env T) (rejects : JobPriority → Bool) :
    List JobPriority → Async JobPriority Store (Option JobId)
  | [] => return none
  | p :: rest => do
    let jobId ← .exchange (rejects p) p fun st =>
      match st.rpoplpush (.waitingList env.queueName p.name) (.processingList env.queueName) with
      | some (jobId, st') => (some jobId, st')
      | none => (none, st)
    match jobId with
    | some jobId => return some jobId
    | none => takeJob env rejects rest

/-- What happens to a worker in one turn of its loop. -/
structure Turn where
  /-- The polls Redis rejects. -/
  polls : JobPriority → Bool
  call : Circumstances

/-- One turn of `workerLoop`, which catches what its calls throw. -/
def WorkerPool.turn (env : Env T) (w : Nat) (handlers : List String) (t : Turn) (st : Store) :
    Store :=
  match (takeJob env t.polls priorities).run st with
  | .ok (some jobId) st => (processJob env w handlers t.call jobId).after st
  | .ok none st => st
  | .error _ st => st

/-! ## `checkStalledJobs` (`src/worker/Watchdog.ts`) -/

/-- The Redis commands of a pass; the candidates are distinct, so it issues each once. -/
inductive WatchdogCommand where
  /-- `HGETALL` of the active-jobs hash -/
  | active
  /-- `LRANGE` of the processing list -/
  | processing
  /-- `MGET` of the heartbeats -/
  | heartbeats
  /-- `HGETALL job:<id>` -/
  | inspect (jobId : JobId)
  /-- the transaction that requeues a job, or drops it -/
  | requeue (jobId : JobId)
deriving DecidableEq

/-- The loop over the stalled ids. -/
def Watchdog.requeueStalledJobs (env : Env T) (rejects : WatchdogCommand → Bool) :
    List JobId → Async WatchdogCommand Store Unit
  | [] => return
  | jobId :: rest => do
    let jobHash ← .query (rejects (.inspect jobId)) (.inspect jobId) fun st => st.jobs jobId
    .request (rejects (.requeue jobId)) (.requeue jobId) fun st =>
      requeueTransaction env st jobId jobHash
    requeueStalledJobs env rejects rest

/-- `checkStalledJobs`; the heartbeats are read at time `now`. -/
def Watchdog.checkStalledJobs (env : Env T) (now : Nat) (rejects : WatchdogCommand → Bool) :
    Async WatchdogCommand Store Unit := do
  let activeIds ← .query (rejects .active) .active fun st => (st.activeJobs env.queueName).keys
  let processingIds ← .query (rejects .processing) .processing fun st =>
    st.lists (.processingList env.queueName)
  let jobIds := distinct (activeIds ++ processingIds)
  if jobIds = [] then
    return
  else
    let stalled ← .query (rejects .heartbeats) .heartbeats fun st =>
      jobIds.filter fun id => !st.alive now id
    requeueStalledJobs env rejects stalled

/-! ## `POST /jobs/:id/retry` (`src/api/routes.ts`) -/

/-- The Redis commands of a retry request. -/
inductive RetryCommand where
  /-- `getJob`: `HGETALL job:<id>` -/
  | fetch
  /-- the `LREM` + `HMSET` + `LPUSH` transaction -/
  | requeue
deriving DecidableEq

/-- What makes the server answer 500. -/
inductive RetryException where
  | rejected (command : RetryCommand)
  | decode (error : JsError)

/-- The answer to a retry request. -/
inductive RetryReply where
  | message (text : String)
  | error (code : Nat) (text : String)
deriving DecidableEq

/-- `POST /jobs/:id/retry`. -/
def retryRoute (env : Env T) (rejects : RetryCommand → Bool) (id : JobId) :
    Async RetryException Store RetryReply := do
  let hash ← .query (rejects .fetch) (.rejected .fetch) fun st => st.jobs id
  if hash.isEmpty then
    return .error 404 "Job not found"
  else
    match deserializeJob env.json hash with
    | .error e => throw (.decode e)
    | .ok job =>
      if job.status ≠ some JobStatus.dead.name ∧ job.status ≠ some JobStatus.failed.name then
        return .error 400 ("Cannot retry job with status \"" ++ job.status.getD "undefined" ++
          "\". Only dead/failed jobs can be retried.")
      else
        .request (rejects .requeue) (.rejected .requeue) fun st =>
          ((st.lrem (.deadList env.queueName) 0 id).hmset id
            { status := some JobStatus.waiting.name, attempts := some "0" }).lpush
              (.waitingList env.queueName job.priority) id
        return .message ("Job " ++ id ++ " requeued for processing.")

end DistriSys
