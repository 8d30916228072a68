import DistriSys.Core.Store
import Mathlib.Data.List.Dedup

/-!
# The watchdog (`src/worker/Watchdog.ts`)

One pass of `checkStalledJobs`: two snapshot reads for the candidates, one read
of all their heartbeats, then for each candidate without a heartbeat a read of
its record and a requeue transaction.

The two snapshots are merged without repetitions (`distinct`). The transaction
(`requeueTransaction`) writes the attempts of the record that was read before it, plus one,
whatever the record says by then, and pushes whatever `HDEL` and `LREM` have removed; without
a record it removes only.
-/

namespace DistriSys

open Js Redis

/-- The next command of a watchdog pass. -/
inductive WatchdogPc where
  | idle
  /-- `LRANGE` of the processing list -/
  | readProcessing (activeIds : List JobId)
  /-- `MGET` of the heartbeats -/
  | readHeartbeats (jobIds : List JobId)
  /-- `HGETALL job:<id>` of a stalled job -/
  | inspect (jobId : JobId) (rest : List JobId)
  /-- the transaction that requeues it -/
  | requeue (jobId : JobId) (jobHash : JobHash) (rest : List JobId)

/-- The head of the loop over the stalled ids. -/
def WatchdogPc.next : List JobId → WatchdogPc
  | [] => idle
  | jobId :: rest => inspect jobId rest

/-- `Array.from(new Set(ids))`: each id at its first occurrence. -/
def distinct (ids : List JobId) : List JobId := ids.reverse.dedup.reverse

@[simp] theorem mem_distinct {ids : List JobId} {id : JobId} : id ∈ distinct ids ↔ id ∈ ids := by
  simp [distinct]

theorem nodup_distinct (ids : List JobId) : (distinct ids).Nodup :=
  List.nodup_reverse.mpr (List.nodup_dedup _)

/-- The attempts value the transaction writes. -/
def requeueAttempts (jobHash : JobHash) : JsNumber := (parseIntField jobHash.attempts).addOne

variable {T : Type}

/-- The transaction of one loop iteration. -/
def requeueTransaction (env : Env T) (st : Store) (jobId : JobId) (jobHash : JobHash) : Store :=
  let st := (st.hdelActive env.queueName jobId).lrem (.processingList env.queueName) 1 jobId
  if jobHash.isEmpty then
    -- metadata missing: the id is dropped
    st
  else
    -- `maxAttempts` is not looked at
    (st.hmset jobId
        { attempts := some (requeueAttempts jobHash).toString
          status := some JobStatus.waiting.name }).lpush
      (.waitingList env.queueName (orNormal jobHash.priority)) jobId

/-- With or without a record, the job leaves the processing list and the active-jobs hash. -/
theorem entries_requeueTransaction (env : Env T) (st : Store) (id : JobId) (jobHash : JobHash) :
    (requeueTransaction env st id jobHash).lists (.processingList env.queueName) =
        lrem 1 id (st.lists (.processingList env.queueName)) ∧
      (requeueTransaction env st id jobHash).activeJobs env.queueName =
        (st.activeJobs env.queueName).hdel id := by
  unfold requeueTransaction
  split <;> simp

/-- One command of a watchdog pass; from `idle`, a timer tick starts one. -/
def watchdogStep (env : Env T) (now : Nat) (st : Store) : WatchdogPc → Effect WatchdogPc
  | .idle =>
    { store := st
      pc := .readProcessing (st.activeJobs env.queueName).keys }
  | .readProcessing activeIds =>
    let jobIds := distinct (activeIds ++ st.lists (.processingList env.queueName))
    { store := st
      pc := if jobIds = [] then .idle else .readHeartbeats jobIds }
  | .readHeartbeats jobIds =>
    { store := st
      pc := .next (jobIds.filter fun id => !st.alive now id) }
  | .inspect jobId rest =>
    { store := st
      pc := .requeue jobId (st.jobs jobId) rest }
  | .requeue jobId jobHash rest =>
    { store := requeueTransaction env st jobId jobHash
      pc := .next rest
      events := [if jobHash.isEmpty then .dropped jobId else .requeued jobId] }

end DistriSys
