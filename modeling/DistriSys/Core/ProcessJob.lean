import DistriSys.Core.WorkerPool
import DistriSys.Js.Async

/-!
# `processJob` as one call (`src/worker/WorkerPool.ts`)

`workerStep` runs one command of a worker at a time and assumes that Redis
carries it out. Here is the whole call, with the exceptions that rejected
commands raise. It issues every command at most once, so a run of it is fixed by
which commands are rejected, what the clock says at each, how and when the handler
ends, and when the interval timer gets a renewal through (`Circumstances`).

- `Circumstances` says which commands are rejected and what the clock shows; `issue` is one
  command under them, `issueBeating` one during which the heartbeat timer runs.
- `failJob` is the `catch` block, `cleanUp` the `finally` block, `runHandler` the `try`
  block with both, `processJob` the whole call with its early exits.
- `Runnable` names the records for which the call gets to its handler, and
  `after_processJob` is the state it leaves then, whatever is rejected later.
-/

namespace DistriSys

open Js Redis

variable {T : Type}

/-- The Redis commands and transactions of `processJob`. -/
inductive Command where
  /-- `HGETALL job:<id>` -/
  | fetch
  /-- `HSET job:<id> status active` -/
  | markActive
  /-- `HSET job:<id> status failed` -/
  | markFailed
  /-- `HSET active_jobs:<queue> <id>` -/
  | register
  /-- the first `SET heartbeat:<id>` -/
  | beat
  /-- the success transaction -/
  | complete
  /-- `INCR jobs_failed_total` -/
  | countFailure
  /-- `updateJobFields` with status `delayed` -/
  | writeDelayed
  /-- `ZADD` to the delayed set -/
  | zaddDelayed
  /-- `updateJobFields` with status `dead` -/
  | writeDead
  /-- `LPUSH` on the dead list -/
  | lpushDead
  /-- the transaction of the `finally` block -/
  | cleanup
deriving DecidableEq

/-- What ends a call of `processJob` early. -/
inductive Exception where
  | rejected (command : Command)
  | decode (error : JsError)
  | handler

/-- What a call of `processJob` meets with. -/
structure Circumstances where
  /-- The commands Redis rejects. -/
  rejects : Command → Bool
  /-- The clock when a command is carried out and the code after it runs. -/
  now : Command → Nat
  /-- When the interval timer renewed the heartbeat since the command before this
  one; a rejected renewal goes unnoticed. -/
  renewals : Command → List Nat
  /-- How the handler call ends, and when. -/
  outcome : HandlerOutcome
  settledAt : Nat
  /-- The value of `Math.random`, scaled. -/
  draw : Nat

/-- The renewals of a heartbeat at these times. -/
@[simps] def Store.renew (st : Store) (ttlSec : Nat) (id : JobId) (times : List Nat) : Store :=
  { st with
    heartbeats := times.foldl
      (fun heartbeats now => Function.update heartbeats id (some (.setEx now ttlSec ())))
      st.heartbeats }

/-- The success transaction. -/
@[simps!] def Store.completeJob (st : Store) (id : JobId) (elapsed : Nat) : Store :=
  { st.hmset id { status := some JobStatus.completed.name } with
    jobsProcessedTotal := st.jobsProcessedTotal + 1
    processingTimeSum := st.processingTimeSum + elapsed }

/-- `INCR jobs_failed_total`. -/
@[simps] def Store.incrFailed (st : Store) : Store :=
  { st with jobsFailedTotal := st.jobsFailedTotal + 1 }

/-- A command that writes. -/
def Circumstances.issue (c : Circumstances) (command : Command) (f : Store → Store) :
    Async Exception Store Unit :=
  .request (c.rejects command) (.rejected command) f

/-- A command issued while the interval timer runs, after its renewals. -/
def Circumstances.issueBeating (c : Circumstances) (config : QueueConfig) (jobId : JobId)
    (command : Command) (f : Store → Store) : Async Exception Store Unit := do
  modify fun st => st.renew config.heartbeatTtlSec jobId (c.renewals command)
  c.issue command f

/-- The `catch` block: count the failure, then file the job for a retry or bury it. -/
def failJob (env : Env T) (c : Circumstances) (jobId : JobId) (job : Job T) :
    Async Exception Store Unit := do
  c.issueBeating env.config jobId .countFailure fun st => st.incrFailed
  let nextAttempt := job.attempts.addOne
  if nextAttempt.lt job.maxAttempts then
    let delay := calculateBackoff env.config nextAttempt.toNat c.draw
    c.issueBeating env.config jobId .writeDelayed fun st => st.hmset jobId
      { status := some JobStatus.delayed.name, attempts := some nextAttempt.toString }
    c.issueBeating env.config jobId .zaddDelayed fun st =>
      st.zadd env.queueName (c.now .writeDelayed + delay) jobId
  else
    c.issueBeating env.config jobId .writeDead fun st => st.hmset jobId
      { status := some JobStatus.dead.name, attempts := some nextAttempt.toString }
    c.issueBeating env.config jobId .lpushDead fun st => st.lpush (.deadList env.queueName) jobId

/-- The `finally` block. -/
def cleanUp (env : Env T) (c : Circumstances) (jobId : JobId) : Async Exception Store Unit :=
  c.issueBeating env.config jobId .cleanup fun st =>
    ((st.hdelActive env.queueName jobId).delHeartbeat jobId).lrem
      (.processingList env.queueName) 1 jobId

/-- From `await handler(job)` on. The handler and the success transaction share
the `try` block, so either may be what the `catch` block is entered for. -/
def runHandler (env : Env T) (c : Circumstances) (jobId : JobId) (job : Job T) :
    Async Exception Store Unit := do
  let startTime := c.now .beat
  try
    if c.outcome = .reject then throw .handler
    let elapsed := c.settledAt - startTime
    c.issueBeating env.config jobId .complete fun st => st.completeJob jobId elapsed
  catch _ =>
    failJob env c jobId job
  finally
    cleanUp env c jobId

/-- `processJob` of worker `w`. -/
def processJob (env : Env T) (w : Nat) (handlers : List String) (c : Circumstances)
    (jobId : JobId) : Async Exception Store Unit := do
  let jobHash ← .query (c.rejects .fetch) (.rejected .fetch) fun st => st.jobs jobId
  if jobHash.isEmpty then
    -- job not found, skipping
    return
  match deserializeJob env.json jobHash with
  | .error e => throw (.decode e)
  | .ok job =>
    c.issue .markActive fun st => st.hmset jobId { status := some JobStatus.active.name }
    if hasHandler handlers job = false then
      c.issue .markFailed fun st => st.hmset jobId { status := some JobStatus.failed.name }
      return
    c.issue .register fun st => st.hsetActive env.queueName jobId
      { workerId := w + 1, startedAt := c.now .markActive, timeout := env.config.maxDelayMs }
    c.issue .beat fun st => st.setHeartbeat (c.now .beat) env.config.heartbeatTtlSec jobId
    runHandler env c jobId job

/-! ## What a call leaves behind, block by block -/

section After

variable {env : Env T} {c : Circumstances} {config : QueueConfig} {jobId : JobId} {job : Job T}
  {st : Store} {command : Command} {f : Store → Store} {k : Unit → Async Exception Store Unit}

@[simp] theorem after_issueBeating :
    (c.issueBeating config jobId command f).after st =
      if c.rejects command then st.renew config.heartbeatTtlSec jobId (c.renewals command)
      else f (st.renew config.heartbeatTtlSec jobId (c.renewals command)) := by
  simp [Circumstances.issueBeating, Circumstances.issue]

@[simp] theorem throws_issueBeating :
    (c.issueBeating config jobId command f).throws st = c.rejects command := by
  simp [Circumstances.issueBeating, Circumstances.issue]

@[simp] theorem after_issueBeating_bind :
    (c.issueBeating config jobId command f >>= k).after st =
      if c.rejects command then st.renew config.heartbeatTtlSec jobId (c.renewals command)
      else (k ()).after (f (st.renew config.heartbeatTtlSec jobId (c.renewals command))) := by
  rw [Circumstances.issueBeating, bind_assoc, Async.after_modify_bind, Circumstances.issue,
    Async.after_request_bind]

/-- The `catch` block is entered when the handler rejects, and when the success
transaction is rejected; the `finally` block runs in any case. -/
theorem after_runHandler :
    (runHandler env c jobId job).after st = (cleanUp env c jobId).after
      (if c.outcome = .reject then (failJob env c jobId job).after st
      else if c.rejects .complete then
        (failJob env c jobId job).after
          (st.renew env.config.heartbeatTtlSec jobId (c.renewals .complete))
      else
        (st.renew env.config.heartbeatTtlSec jobId (c.renewals .complete)).completeJob jobId
          (c.settledAt - c.now .beat)) := by
  rw [runHandler, Async.after_tryFinally, Async.after_tryCatch]
  congr 1
  cases c.outcome with
  | reject => simp
  | resolve => cases hcomplete : c.rejects .complete <;> simp [hcomplete]

/-- The store when the handler is called. -/
def Store.beginJob (st : Store) (env : Env T) (w : Nat) (c : Circumstances) (jobId : JobId) : Store :=
  ((st.hmset jobId { status := some JobStatus.active.name }).hsetActive env.queueName jobId
    { workerId := w + 1, startedAt := c.now .markActive, timeout := env.config.maxDelayMs }).setHeartbeat
      (c.now .beat) env.config.heartbeatTtlSec jobId

/-- A record the worker can run: it is there, its payload decodes, and there is a
handler for its type. -/
structure Runnable (env : Env T) (handlers : List String) (jobHash : JobHash) (job : Job T) :
    Prop where
  decoded : deserializeJob env.json jobHash = .ok job
  handler : hasHandler handlers job = true

theorem isEmpty_of_deserializeJob {json : Json T} {jobHash : JobHash}
    (h : deserializeJob json jobHash = .ok job) : jobHash.isEmpty = false := by
  refine decide_eq_false ?_
  rintro rfl
  cases h

/-- A call on a record it can run gets as far as the handler, unless one of the
first four commands is rejected. -/
theorem after_processJob {w : Nat} {handlers : List String}
    (h : Runnable env handlers (st.jobs jobId) job) :
    (processJob env w handlers c jobId).after st =
      if c.rejects .fetch || c.rejects .markActive then st
      else if c.rejects .register then st.hmset jobId { status := some JobStatus.active.name }
      else if c.rejects .beat then
        (st.hmset jobId { status := some JobStatus.active.name }).hsetActive env.queueName jobId
          { workerId := w + 1, startedAt := c.now .markActive, timeout := env.config.maxDelayMs }
      else (runHandler env c jobId job).after (st.beginJob env w c jobId) := by
  simp only [processJob, Async.after_query_bind, isEmpty_of_deserializeJob h.decoded, h.decoded,
    h.handler, Circumstances.issue, Store.beginJob]
  cases c.rejects .fetch <;> cases c.rejects .markActive <;> simp

end After

end DistriSys
