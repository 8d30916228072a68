import DistriSys.Core.JobStore
import DistriSys.Redis.Collections
import Mathlib.Data.String.Basic

/-!
# The Redis store of the task queue (`src/lib/redis/keys.ts`)

`Store` holds the keys `RedisKeys` builds, one component for each kind of key.
Keys of different builders, or of one builder with different arguments, are
different entries.

`Event`s record what the components did, for stating properties of runs; no
component ever reads one.

- `hmset`, `lpush`, `lrem`, `rpoplpush`, `zadd`, `zrem`, `hsetActive`, `hdelActive`,
  `setHeartbeat`, `delHeartbeat`: one definition for each command the code issues on these
  keys. A command on one key leaves the others alone by definition.
- `queued`: a waiting list in the order in which it is served, which is the order of the
  pushes; lists grow on the left and are popped on the right.
- `alive`: a heartbeat that has not expired. Expired keys stay in the model and read as absent.
-/

namespace DistriSys

open Js Redis

/-- The list keys `RedisKeys.waitingList`, `RedisKeys.processingList` and
`RedisKeys.deadList`. The priority is a string, as in the source: some callers
take it from a stored record. -/
inductive ListKey where
  | waitingList (queue : QueueName) (priority : String)
  | processingList (queue : QueueName)
  | deadList (queue : QueueName)
deriving DecidableEq

/-- The Redis database. -/
structure Store where
  /-- `job:<id>` -/
  jobs : JobId → JobHash
  /-- `queue:<name>:waiting:<priority>`, `queue:<name>:processing`, `queue:<name>:dead` -/
  lists : ListKey → List JobId
  /-- `queue:<name>:delayed`, scored by due time -/
  delayed : QueueName → ZSet JobId
  /-- `active_jobs:<queue>` -/
  activeJobs : QueueName → Hash JobId ActiveJobEntry
  /-- `heartbeat:<id>` -/
  heartbeats : JobId → Option (Volatile Unit)
  /-- `idempotency:<key>` -/
  idempotency : String → Option (Volatile JobId)
  jobsProcessedTotal : Nat
  jobsFailedTotal : Nat
  processingTimeSum : Nat

namespace Store

/-- A database without keys. -/
def empty : Store where
  jobs _ := .absent
  lists _ := []
  delayed _ := .empty
  activeJobs _ := .empty
  heartbeats _ := none
  idempotency _ := none
  jobsProcessedTotal := 0
  jobsFailedTotal := 0
  processingTimeSum := 0

/-! ## Commands -/

/-- `HMSET job:<id>`; with a single field, `HSET`. -/
@[simps] def hmset (st : Store) (id : JobId) (fields : JobHash) : Store :=
  { st with jobs := Function.update st.jobs id ((st.jobs id).patch fields) }

/-- `DEL job:<id>`. -/
@[simps] def delJob (st : Store) (id : JobId) : Store :=
  { st with jobs := Function.update st.jobs id .absent }

/-- `LPUSH`. -/
@[simps] def lpush (st : Store) (key : ListKey) (id : JobId) : Store :=
  { st with lists := Function.update st.lists key (id :: st.lists key) }

/-- `LREM`. -/
@[simps] def lrem (st : Store) (key : ListKey) (count : Nat) (id : JobId) : Store :=
  { st with lists := Function.update st.lists key (Redis.lrem count id (st.lists key)) }

/-- `RPOPLPUSH`: `none` when the source list is empty. -/
def rpoplpush (st : Store) (source destination : ListKey) : Option (JobId × Store) :=
  match rpop (st.lists source) with
  | none => none
  | some (id, rest) =>
    some (id, { st with lists := Function.update st.lists source rest }.lpush destination id)

/-- `ZADD`. -/
@[simps] def zadd (st : Store) (queue : QueueName) (score : Nat) (id : JobId) : Store :=
  { st with delayed := Function.update st.delayed queue ((st.delayed queue).zadd score id) }

/-- `ZREM`. -/
@[simps] def zrem (st : Store) (queue : QueueName) (id : JobId) : Store :=
  { st with delayed := Function.update st.delayed queue ((st.delayed queue).zrem id) }

/-- `HSET active_jobs:<queue> <id>`. -/
@[simps] def hsetActive (st : Store) (queue : QueueName) (id : JobId) (entry : ActiveJobEntry) : Store :=
  { st with activeJobs := Function.update st.activeJobs queue ((st.activeJobs queue).hset id entry) }

/-- `HDEL active_jobs:<queue> <id>`. -/
@[simps] def hdelActive (st : Store) (queue : QueueName) (id : JobId) : Store :=
  { st with activeJobs := Function.update st.activeJobs queue ((st.activeJobs queue).hdel id) }

/-- `SET heartbeat:<id> 1 EX ttlSec`. -/
@[simps] def setHeartbeat (st : Store) (now ttlSec : Nat) (id : JobId) : Store :=
  { st with heartbeats := Function.update st.heartbeats id (some (.setEx now ttlSec ())) }

/-- `DEL heartbeat:<id>`. -/
@[simps] def delHeartbeat (st : Store) (id : JobId) : Store :=
  { st with heartbeats := Function.update st.heartbeats id none }

/-- Whether a read of `heartbeat:<id>` finds the key. -/
def alive (st : Store) (now : Nat) (id : JobId) : Bool :=
  (Volatile.get? now (st.heartbeats id)).isSome

/-! ## Waiting in line -/

/-- The ids on a list in the order `RPOPLPUSH` takes them. -/
def queued (st : Store) (key : ListKey) : List JobId := (st.lists key).reverse

/-- A push is the end of the line. -/
theorem queued_lpush (st : Store) (key key' : ListKey) (id : JobId) :
    (st.lpush key id).queued key' = st.queued key' ++ if key = key' then [id] else [] := by
  by_cases hkey : key = key'
  · subst hkey
    simp [queued]
  · simp [queued, Function.update_of_ne (Ne.symm hkey), hkey]

section

variable {st st' : Store} {source destination : ListKey} {id : JobId}

/-- What `RPOPLPUSH` does when it finds something. -/
theorem rpoplpush_eq_some (h : st.rpoplpush source destination = some (id, st')) :
    ∃ rest, rpop (st.lists source) = some (id, rest) ∧
      st' = { st with lists := Function.update st.lists source rest }.lpush destination id := by
  unfold rpoplpush at h
  split at h
  · cases h
  · next id' rest hpop =>
    cases h
    exact ⟨rest, hpop, rfl⟩

/-- It finds something unless the list is empty. -/
theorem lists_eq_nil_of_rpoplpush (h : st.rpoplpush source destination = none) :
    st.lists source = [] := by
  unfold rpoplpush at h
  split at h
  · next hpop => exact rpop_eq_none.mp hpop
  · cases h

theorem jobs_rpoplpush (h : st.rpoplpush source destination = some (id, st')) :
    st'.jobs = st.jobs := by
  obtain ⟨rest, -, rfl⟩ := rpoplpush_eq_some h
  rfl

theorem delayed_rpoplpush (h : st.rpoplpush source destination = some (id, st')) :
    st'.delayed = st.delayed := by
  obtain ⟨rest, -, rfl⟩ := rpoplpush_eq_some h
  rfl

theorem idempotency_rpoplpush (h : st.rpoplpush source destination = some (id, st')) :
    st'.idempotency = st.idempotency := by
  obtain ⟨rest, -, rfl⟩ := rpoplpush_eq_some h
  rfl

/-- `RPOPLPUSH` takes the first in line and puts it at the left end of the other list. -/
theorem queued_rpoplpush (hne : source ≠ destination)
    (h : st.rpoplpush source destination = some (id, st')) :
    st.queued source = id :: st'.queued source ∧
      st'.lists destination = id :: st.lists destination ∧
      ∀ key, key ≠ source → key ≠ destination → st'.queued key = st.queued key := by
  obtain ⟨rest, hpop, rfl⟩ := rpoplpush_eq_some h
  refine ⟨?_, ?_, ?_⟩
  · simp [queued, hne, rpop_eq_some.mp hpop]
  · simp [Function.update_of_ne hne.symm]
  · intro key hsource hdestination
    simp [queued, hsource, hdestination]

end

end Store

/-! ## Events -/

/-- What happened to a job, in the order of the run. -/
inductive Event where
  /-- `enqueue` pushed the id on a waiting list. -/
  | pushed (id : JobId)
  /-- `enqueue` returned the job it built. -/
  | returnedJob (id : JobId)
  /-- The `enqueue` call that built `id` returned the id of an earlier job. -/
  | returnedId (id claimedId : JobId)
  /-- `RPOPLPUSH` handed the id to a worker. -/
  | dequeued (id : JobId)
  /-- A worker entered the id in the active-jobs hash. -/
  | registered (id : JobId)
  /-- The handler was called, with this `job.attempts`. -/
  | started (id : JobId) (attempts : JsNumber)
  /-- A handler call resolved. -/
  | resolved (id : JobId)
  /-- A handler call rejected. -/
  | rejected (id : JobId)
  /-- The success transaction ran. -/
  | completed (id : JobId)
  /-- A failure branch wrote status and attempts. -/
  | failed (id : JobId)
  /-- A failure branch added the id to the delayed set. -/
  | delayed (id : JobId)
  /-- A failure branch pushed the id on the dead list. -/
  | buried (id : JobId)
  /-- A scheduler transaction pushed the id on a waiting list. -/
  | released (id : JobId)
  /-- A watchdog transaction pushed the id on a waiting list. -/
  | requeued (id : JobId)
  /-- A watchdog transaction dropped an id without a record. -/
  | dropped (id : JobId)
  /-- A retry request pushed the id on a waiting list. -/
  | retried (id : JobId)
deriving DecidableEq

/-- What one command of a component does: the new store, where the component
stands afterwards, and the events of the step. -/
structure Effect (Pc : Type) where
  store : Store
  pc : Pc
  events : List Event := []

end DistriSys
