import DistriSys.Core.Store

/-!
# The retry route (`src/api/routes.ts`)

`POST /jobs/:id/retry`: read the record, check its status, then move the job
back to a waiting list in a transaction.

The read and the transaction are separate commands, and the transaction checks nothing: what
the request has seen is in `RetryPc`, and `retryStep` acts on it. `retryRequest_eq_requeue`
says when a request gets as far as its transaction.
-/

namespace DistriSys

open Redis

variable {T : Type}

/-- `getJob`: `null` for an absent record. -/
def getJob (json : Json T) (st : Store) (id : JobId) : Except JsError (Option (Job T)) :=
  let hash := st.jobs id
  if hash.isEmpty then .ok none else (deserializeJob json hash).map some

theorem deserializeJob_of_getJob {json : Json T} {st : Store} {id : JobId} {job : Job T}
    (h : getJob json st id = .ok (some job)) : deserializeJob json (st.jobs id) = .ok job := by
  rw [getJob] at h
  split at h
  · cases h
  · cases hd : deserializeJob json (st.jobs id) with
    | error e =>
      rw [hd] at h
      cases h
    | ok job' =>
      rw [hd] at h
      cases h
      rfl

/-- The next command of a retry request. -/
inductive RetryPc where
  | idle
  /-- the `LREM` + `HMSET` + `LPUSH` transaction -/
  | requeue (id : JobId) (priority : String)

/-- The first half of a request: the record is read and its status checked. The
answers 404, 400 and 500 end the request. -/
def retryRequest (env : Env T) (st : Store) (id : JobId) : RetryPc :=
  match getJob env.json st id with
  | .error _ => .idle
  | .ok none => .idle
  | .ok (some job) =>
    -- "Only dead/failed jobs can be retried."
    if job.status ≠ some JobStatus.dead.name ∧ job.status ≠ some JobStatus.failed.name then .idle
    else .requeue id job.priority

/-- A request that goes on found a record with status `dead` or `failed`. -/
theorem retryRequest_eq_requeue {env : Env T} {st : Store} {id id' : JobId} {priority : String}
    (h : retryRequest env st id = .requeue id' priority) :
    id' = id ∧ ∃ job, deserializeJob env.json (st.jobs id) = .ok job ∧ priority = job.priority ∧
      (job.status = some JobStatus.dead.name ∨ job.status = some JobStatus.failed.name) := by
  rw [retryRequest] at h
  split at h
  · cases h
  · cases h
  · next job hjob =>
    split at h
    · cases h
    · next hstatus =>
      cases h
      exact ⟨rfl, job, deserializeJob_of_getJob hjob, rfl, by tauto⟩

/-- The second half: the transaction. -/
def retryStep (env : Env T) (st : Store) : RetryPc → Option (Effect RetryPc)
  | .idle => none
  | .requeue id priority => some
      { store := ((st.lrem (.deadList env.queueName) 0 id).hmset id
          { status := some JobStatus.waiting.name, attempts := some "0" }).lpush
            (.waitingList env.queueName priority) id
        pc := .idle
        events := [.retried id] }

end DistriSys
