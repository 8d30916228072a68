import DistriSys.Core.Store

/-!
# The scheduler (`src/scheduler/Scheduler.ts`)

One pass of `processDelayedJobs`: read the due ids once, then for each of them
look up its priority and move it in a transaction.

The pass holds on to the ids it has read: nothing that happens to the delayed set later makes
it change its mind, and the push does not look at what `ZREM` has removed. The loop variable
and the rest of the list are the program counter (`SchedulerPc`).
-/

namespace DistriSys

open Redis

/-- The next command of a scheduler pass. -/
inductive SchedulerPc where
  | idle
  /-- `HGET job:<id> priority` -/
  | lookup (jobId : JobId) (rest : List JobId)
  /-- the `ZREM` + `LPUSH` + `HSET` transaction -/
  | move (jobId : JobId) (priority : String) (rest : List JobId)

/-- The head of the loop over the due ids. -/
def SchedulerPc.next : List JobId → SchedulerPc
  | [] => idle
  | jobId :: rest => lookup jobId rest

variable {T : Type}

/-- One command of a scheduler pass; from `idle`, a timer tick starts one. -/
def schedulerStep (env : Env T) (now : Nat) (st : Store) : SchedulerPc → Effect SchedulerPc
  | .idle =>
    { store := st
      pc := .next ((st.delayed env.queueName).zrangebyscore now) }
  | .lookup jobId rest =>
    { store := st
      pc := .move jobId (orNormal (st.jobs jobId).priority) rest }
  -- runs whether or not the id is still in the delayed set
  | .move jobId priority rest =>
    { store := ((st.zrem env.queueName jobId).lpush (.waitingList env.queueName priority) jobId).hmset
        jobId { status := some JobStatus.waiting.name }
      pc := .next rest
      events := [.released jobId] }

end DistriSys
