import DistriSys.Core.Store

/-!
# Workers (`src/worker/WorkerPool.ts`)

One worker loop: poll the waiting lists in priority order, move an id to the
processing list, run `processJob` on it, start over. `WorkerPc` is the next
Redis command of the loop with the variables the rest of the call reads;
`workerStep` runs that command and the code up to the next one. Between
`beat` and the settlement the worker waits for the handler; how the handler
call ends is `settleStep`.

- `calculateBackoff`: the delay of an attempt, with the jitter as a draw from outside;
- `workerStep`: the path through `processJob` when Redis carries out every command, with its
  three early exits (no record, a payload that does not decode, no handler);
- `retryOrBury`: the decision of the failure branch, between its `INCR` and its `HMSET`;
- `WorkerPc.renews`: the window in which the interval timer renews the heartbeat.
-/

namespace DistriSys

open Js Redis

variable {T : Type}

/-- `calculateBackoff`: capped exponential delay plus jitter. `draw` stands for
the value of `Math.random`, scaled. -/
def calculateBackoff (config : QueueConfig) (attempt : Nat) (draw : Nat) : Nat :=
  min config.maxDelayMs (1000 * 2 ^ attempt) + draw % (config.jitterMs + 1)

/-- How a handler call ended. -/
inductive HandlerOutcome where
  | resolve
  | reject
deriving DecidableEq

/-- Where a worker loop stands: the next Redis command, or the handler call it
waits for. -/
inductive WorkerPc (T : Type) where
  /-- `RPOPLPUSH` from the waiting list of this priority -/
  | poll (priority : JobPriority)
  /-- `HGETALL job:<id>` -/
  | fetch (jobId : JobId)
  /-- `HSET job:<id> status active` -/
  | markActive (jobId : JobId) (job : Job T)
  /-- `HSET job:<id> status failed`: no handler registered -/
  | markFailed (jobId : JobId)
  /-- `HSET active_jobs:<queue> <id>` -/
  | register (jobId : JobId) (job : Job T) (startedAt : Nat)
  /-- the first `SET heartbeat:<id>` -/
  | beat (jobId : JobId) (job : Job T)
  /-- `await handler(job)` -/
  | running (jobId : JobId) (job : Job T) (startTime : Nat)
  /-- the success transaction -/
  | complete (jobId : JobId) (elapsed : Nat)
  /-- `INCR jobs_failed_total` -/
  | countFailure (jobId : JobId) (job : Job T)
  /-- `HMSET job:<id>` with status `delayed` -/
  | writeDelayed (jobId : JobId) (nextAttempt : JsNumber) (delay : Nat)
  /-- `HMSET job:<id>` with status `dead` -/
  | writeDead (jobId : JobId) (nextAttempt : JsNumber)
  /-- `ZADD` to the delayed set -/
  | zaddDelayed (jobId : JobId) (score : Nat)
  /-- `LPUSH` on the dead list -/
  | lpushDead (jobId : JobId)
  /-- the transaction of the `finally` block -/
  | cleanup (jobId : JobId)
  /-- the process died -/
  | crashed

/-- A worker loop with the job types its pool has handlers for. -/
structure Worker (T : Type) where
  handlers : List String
  pc : WorkerPc T

/-- The list polled after this one came up empty; after the last, the loop
sleeps and starts over. -/
def JobPriority.next : JobPriority → JobPriority
  | high => normal
  | normal => low
  | low => high

/-- `this.handlers.get(job.type)` finds a handler. -/
def hasHandler (handlers : List String) (job : Job T) : Bool :=
  match job.type with
  | some type => decide (type ∈ handlers)
  | none => false

/-- The code of the failure branch between `INCR` and `HMSET`. -/
def retryOrBury (config : QueueConfig) (draw : Nat) (jobId : JobId) (job : Job T) : WorkerPc T :=
  let nextAttempt := job.attempts.addOne
  if nextAttempt.lt job.maxAttempts then
    .writeDelayed jobId nextAttempt (calculateBackoff config nextAttempt.toNat draw)
  else
    .writeDead jobId nextAttempt

/-- One command of worker `w`. An early `return` of `processJob`, and an
exception before its `try` block, lead back to polling and leave the id on the
processing list. -/
def workerStep (env : Env T) (now w draw : Nat) (handlers : List String) (st : Store) :
    WorkerPc T → Option (Effect (WorkerPc T))
  | .poll p =>
    match st.rpoplpush (.waitingList env.queueName p.name) (.processingList env.queueName) with
    -- `if (jobId)`: ids are uuids, never the empty string, so this is the reply being there
    | some (jobId, st') => some { store := st', pc := .fetch jobId, events := [.dequeued jobId] }
    -- nothing waiting at this priority
    | none => some { store := st, pc := .poll p.next }
  | .fetch jobId =>
    let jobHash := st.jobs jobId
    if jobHash.isEmpty then
      -- job not found, skipping
      some { store := st, pc := .poll .high }
    else
      match deserializeJob env.json jobHash with
      -- thrown before the `try` block: no clean-up
      | .error _ => some { store := st, pc := .poll .high }
      | .ok job => some { store := st, pc := .markActive jobId job }
  | .markActive jobId job => some
      { store := st.hmset jobId { status := some JobStatus.active.name }
        pc := if hasHandler handlers job then .register jobId job now else .markFailed jobId }
  | .markFailed jobId => some
      { store := st.hmset jobId { status := some JobStatus.failed.name }
        pc := .poll .high }
  | .register jobId job startedAt => some
      { store := st.hsetActive env.queueName jobId
          { workerId := w + 1, startedAt := startedAt, timeout := env.config.maxDelayMs }
        pc := .beat jobId job
        events := [.registered jobId] }
  | .beat jobId job => some
      { store := st.setHeartbeat now env.config.heartbeatTtlSec jobId
        pc := .running jobId job now
        events := [.started jobId job.attempts] }
  | .running _ _ _ => none
  | .complete jobId elapsed => some
      { store :=
          { st.hmset jobId { status := some JobStatus.completed.name } with
            jobsProcessedTotal := st.jobsProcessedTotal + 1
            processingTimeSum := st.processingTimeSum + elapsed }
        pc := .cleanup jobId
        events := [.completed jobId] }
  | .countFailure jobId job => some
      { store := { st with jobsFailedTotal := st.jobsFailedTotal + 1 }
        pc := retryOrBury env.config draw jobId job }
  | .writeDelayed jobId nextAttempt delay => some
      { store := st.hmset jobId
          { status := some JobStatus.delayed.name, attempts := some nextAttempt.toString }
        pc := .zaddDelayed jobId (now + delay)
        events := [.failed jobId] }
  | .writeDead jobId nextAttempt => some
      { store := st.hmset jobId
          { status := some JobStatus.dead.name, attempts := some nextAttempt.toString }
        pc := .lpushDead jobId
        events := [.failed jobId] }
  | .zaddDelayed jobId score => some
      { store := st.zadd env.queueName score jobId
        pc := .cleanup jobId
        events := [.delayed jobId] }
  | .lpushDead jobId => some
      { store := st.lpush (.deadList env.queueName) jobId
        pc := .cleanup jobId
        events := [.buried jobId] }
  -- the job id is all it goes by: the entry may be another worker's
  | .cleanup jobId => some
      { store := ((st.hdelActive env.queueName jobId).delHeartbeat jobId).lrem
          (.processingList env.queueName) 1 jobId
        pc := .poll .high }
  | .crashed => none

/-- The handler call of a waiting worker ends. -/
def settleStep (now : Nat) (outcome : HandlerOutcome) :
    WorkerPc T → Option (WorkerPc T × List Event)
  | .running jobId job startTime =>
    match outcome with
    | .resolve => some (.complete jobId (now - startTime), [.resolved jobId])
    | .reject => some (.countFailure jobId job, [.rejected jobId])
  | _ => none

/-- The id whose heartbeat the interval timer renews: from `setInterval` to
`clearInterval`. -/
def WorkerPc.renews : WorkerPc T → Option JobId
  | running jobId _ _ => some jobId
  | complete jobId _ => some jobId
  | countFailure jobId _ => some jobId
  | writeDelayed jobId _ _ => some jobId
  | writeDead jobId _ => some jobId
  | zaddDelayed jobId _ => some jobId
  | lpushDead jobId => some jobId
  | _ => none

end DistriSys
