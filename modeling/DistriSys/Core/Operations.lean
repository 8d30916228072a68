import DistriSys.Core.Queue
import DistriSys.Core.Scheduler
import DistriSys.Core.Watchdog
import DistriSys.Core.Routes
import DistriSys.Core.ProcessJob

/-!
# Whole operations

What the calls and passes of the components do when nobody interferes: an
`enqueue` call, a worker's poll with the `processJob` it leads to, a pass of the
scheduler, a pass of the watchdog, a retry request. The other modules of `Core`
cut the same code into single commands.

They are functions on the store, so sequences of them are folds, and a statement about a
whole operation is about one value. `enqueue_unkeyed`, `enqueue_free` and `enqueue_held`
are the three ways through an `enqueue` call. That each operation is a run of the system in
which only one component moves is proved in `Protocol.Operations`.
-/

namespace DistriSys

open Js Redis

variable {T : Type}

/-! ## `enqueue` -/

/-- What `enqueue` returns: the job it built, or the id of an earlier job. -/
inductive EnqueueResult where
  | job (id : JobId)
  | existing (claimedId : JobId)
deriving DecidableEq

/-- `enqueue` at time `now`, under the fresh `id`. -/
def enqueue (env : Env T) (now : Nat) (id : JobId) (call : EnqueueCall T) (st : Store) :
    EnqueueResult × Store :=
  let job := call.job id now
  let st := st.hmset id (serializeJob env.json job)
  match call.idempotencyKey with
  | some key =>
    let (claimedId, st) := st.idempotentEnqueue now key (.waitingList env.queueName job.priority) id
      idempotencyTtlSec
    if claimedId ≠ id then
      -- a collision: the record just saved is an orphan
      (.existing claimedId, st.delJob id)
    else (.job id, st)
  | none => (.job id, st.lpush (.waitingList env.queueName job.priority) id)

section Enqueue

variable {env : Env T} {now : Nat} {id holder : JobId} {call : EnqueueCall T} {st : Store}
  {key : String}

/-- Without a key, the job is saved and pushed. -/
theorem enqueue_unkeyed (hkey : call.idempotencyKey = none) :
    enqueue env now id call st =
      (.job id, (st.hmset id (serializeJob env.json (call.job id now))).lpush
        (.waitingList env.queueName call.priority.name) id) := by
  simp only [enqueue, hkey]
  rfl

/-- With a key whose slot is free, the slot is claimed as well. -/
theorem enqueue_free (hkey : call.idempotencyKey = some key)
    (hfree : Volatile.get? now (st.idempotency key) = none) :
    enqueue env now id call st =
      (.job id, { st.hmset id (serializeJob env.json (call.job id now)) with
        idempotency := Function.update st.idempotency key
          (some (.setEx now idempotencyTtlSec id)) }.lpush
            (.waitingList env.queueName call.priority.name) id) := by
  simp only [enqueue, hkey, Store.idempotentEnqueue, Store.hmset_idempotency, hfree, ne_eq,
    not_true_eq_false, if_false]
  rfl

/-- With a key whose slot is held by another job, the new job is dropped. -/
theorem enqueue_held (hkey : call.idempotencyKey = some key)
    (hheld : Volatile.get? now (st.idempotency key) = some holder) (hne : holder ≠ id) :
    enqueue env now id call st =
      (.existing holder, (st.hmset id (serializeJob env.json (call.job id now))).delJob id) := by
  simp only [enqueue, hkey, Store.idempotentEnqueue, Store.hmset_idempotency, hheld, ne_eq, hne,
    not_false_eq_true, if_true]

end Enqueue

/-! ## The worker loop -/

/-- Poll the waiting lists in the order of their priorities. -/
def takeJob (env : Env T) (st : Store) : Option (JobId × Store) :=
  priorities.findSome? fun p =>
    st.rpoplpush (.waitingList env.queueName p.name) (.processingList env.queueName)

/-- One turn of `workerLoop`: a poll, and `processJob` if it took a job. -/
def workerLoop (env : Env T) (w : Nat) (handlers : List String) (c : Circumstances) (st : Store) :
    Store :=
  match takeJob env st with
  | some (jobId, st) => (processJob env w handlers c jobId).after st
  | none => st

/-! ## Passes -/

/-- The transaction of the scheduler for one id. -/
def releaseTransaction (env : Env T) (st : Store) (jobId : JobId) (priority : String) : Store :=
  ((st.zrem env.queueName jobId).lpush (.waitingList env.queueName priority) jobId).hmset
    jobId { status := some JobStatus.waiting.name }

/-- `processDelayedJobs` at time `now`. -/
def processDelayedJobs (env : Env T) (now : Nat) (st : Store) : Store :=
  ((st.delayed env.queueName).zrangebyscore now).foldl
    (fun st jobId => releaseTransaction env st jobId (orNormal (st.jobs jobId).priority)) st

/-- The ids a watchdog pass at time `now` takes for stalled. -/
def stalledIds (env : Env T) (now : Nat) (st : Store) : List JobId :=
  (distinct ((st.activeJobs env.queueName).keys ++
    st.lists (.processingList env.queueName))).filter fun id => !st.alive now id

/-- `checkStalledJobs` at time `now`. -/
def checkStalledJobs (env : Env T) (now : Nat) (st : Store) : Store :=
  (stalledIds env now st).foldl (fun st jobId => requeueTransaction env st jobId (st.jobs jobId)) st

/-! ## The retry route -/

/-- `POST /jobs/:id/retry`. -/
def retryJob (env : Env T) (id : JobId) (st : Store) : Store :=
  match retryRequest env st id with
  | .idle => st
  | .requeue id priority =>
    ((st.lrem (.deadList env.queueName) 0 id).hmset id
      { status := some JobStatus.waiting.name, attempts := some "0" }).lpush
        (.waitingList env.queueName priority) id

end DistriSys
