import DistriSys.Core.Faulty
import DistriSys.Core.Keys
import DistriSys.Core.Listing
import DistriSys.Core.Stats
import DistriSys.Redis.Database

/-!
# The code over one database of strings

`Store` keeps the kinds of keys apart and a job record as a record. Here the same components
talk to what there really is: one Redis database, with keys built by `RedisKeys`, records and
active jobs as hashes of strings, counters as decimal numbers. What stands between two `await`s
is one `Request`; a `MULTI` transaction and the script are requests of several commands.

Everything that is not a command is as in `System` and `Faulty`.

- `JobField` and `ActiveJobEntry.stringify` spell out what a record and an active-jobs entry
  look like as strings.
- `producerStep`, `workerStep`, `schedulerStep`, `watchdogStep`, `retryStep`: the requests of
  the components, with the same program counters as the typed model.
- `getJob`, `stats`, `listJobs`: the routes that only read. `listJobs` may end with an error of
  Redis, which the client sees as an answer 500 (`answered`).
- `step`, `faultyStep`: the whole system, without and with rejected commands.

That it does what the typed model does is the subject of `Protocol.Raw`.
-/

namespace DistriSys

open Js Redis Redis.Request

/-! ## Records as hashes -/

/-- The fields of a record. -/
inductive JobField where
  | id
  | type
  | data
  | status
  | priority
  | attempts
  | maxAttempts
  | createdAt
deriving DecidableEq

namespace JobField

/-- The field's name in the hash. -/
def name : JobField → String
  | id => "id"
  | type => "type"
  | data => "data"
  | status => "status"
  | priority => "priority"
  | attempts => "attempts"
  | maxAttempts => "maxAttempts"
  | createdAt => "createdAt"

/-- In the order in which `serializeJob` lists them. -/
def all : List JobField :=
  [.id, .type, .data, .status, .priority, .attempts, .maxAttempts, .createdAt]

end JobField

namespace JobHash

/-- A field of the record. -/
def get (h : JobHash) : JobField → Option String
  | .id => h.id
  | .type => h.type
  | .data => h.data
  | .status => h.status
  | .priority => h.priority
  | .attempts => h.attempts
  | .maxAttempts => h.maxAttempts
  | .createdAt => h.createdAt

/-- The arguments of `HMSET`. -/
def toFields (h : JobHash) : List (String × String) :=
  JobField.all.filterMap fun field => (h.get field).map fun value => (field.name, value)

/-- What the code reads of an answer to `HGETALL`. -/
def ofHash (hash : Hash String String) : JobHash where
  id := hash.hget "id"
  type := hash.hget "type"
  data := hash.hget "data"
  status := hash.hget "status"
  priority := hash.hget "priority"
  attempts := hash.hget "attempts"
  maxAttempts := hash.hget "maxAttempts"
  createdAt := hash.hget "createdAt"

end JobHash

/-- `JSON.stringify(entry)`. -/
def ActiveJobEntry.stringify (entry : ActiveJobEntry) : String :=
  "\x7b\"workerId\":" ++ entry.workerId.repr ++ ",\"startedAt\":" ++ entry.startedAt.repr ++
    ",\"timeout\":" ++ entry.timeout.repr ++ "\x7d"

namespace Raw

variable {T : Type}

/-! ## Components -/

/-- The `idempotentEnqueue` script. The second result, whether the slot was free, goes to the
log only. -/
def idempotentEnqueue (idempotencyKey waitingListKey : String) (jobId : JobId) (ttl : Nat) :
    Request (JobId × Bool) := do
  if ← setNxEx idempotencyKey jobId ttl then
    lpush waitingListKey jobId
    return (jobId, true)
  else
    return ((← Request.get idempotencyKey).getD "", false)

/-- One command of an `enqueue` call. -/
def producerStep (env : Env T) : ProducerPc T → Option (Request (ProducerPc T × List Event))
  | .idle => none
  | .save id job key => some do
    hmset (RedisKeys.jobHash id) (serializeJob env.json job).toFields
    match key with
    | some key => return (.claim id job key, [])
    | none => return (.push id job, [])
  | .claim id job key => some do
    let (claimedId, pushed) ← idempotentEnqueue (idempotencyRedisKey key)
      (RedisKeys.waitingList env.queueName job.priority) id idempotencyTtlSec
    let events := if pushed then [Event.pushed id] else []
    if claimedId ≠ id then return (.discard id claimedId, events)
    else return (.idle, events ++ [.returnedJob id])
  | .push id job => some do
    lpush (RedisKeys.waitingList env.queueName job.priority) id
    return (.idle, [.pushed id, .returnedJob id])
  | .discard id claimedId => some do
    del (RedisKeys.jobHash id)
    return (.idle, [.returnedId id claimedId])

/-- One command of worker `w`. -/
def workerStep (env : Env T) (now w draw : Nat) (handlers : List String) :
    WorkerPc T → Option (Request (WorkerPc T × List Event))
  | .poll p => some do
    match ← rpoplpush (RedisKeys.waitingList env.queueName p.name)
        (RedisKeys.processingList env.queueName) with
    | some jobId => return (.fetch jobId, [.dequeued jobId])
    | none => return (.poll p.next, [])
  | .fetch jobId => some do
    let jobHash ← hgetall (RedisKeys.jobHash jobId)
    -- `Object.keys(jobHash).length === 0`
    if jobHash.entries = [] then return (.poll .high, [])
    else
      match deserializeJob env.json (.ofHash jobHash) with
      | .error _ => return (.poll .high, [])
      | .ok job => return (.markActive jobId job, [])
  | .markActive jobId job => some do
    hset (RedisKeys.jobHash jobId) "status" JobStatus.active.name
    return (if hasHandler handlers job then .register jobId job now else .markFailed jobId, [])
  | .markFailed jobId => some do
    hset (RedisKeys.jobHash jobId) "status" JobStatus.failed.name
    return (.poll .high, [])
  | .register jobId job startedAt => some do
    let entry : ActiveJobEntry :=
      { workerId := w + 1, startedAt := startedAt, timeout := env.config.maxDelayMs }
    hset (RedisKeys.activeJobsHash env.queueName) jobId entry.stringify
    return (.beat jobId job, [.registered jobId])
  | .beat jobId job => some do
    setEx (RedisKeys.heartbeat jobId) "1" env.config.heartbeatTtlSec
    return (.running jobId job now, [.started jobId job.attempts])
  | .running _ _ _ => none
  | .complete jobId elapsed => some do
    -- `MULTI`: nothing comes between these three
    hset (RedisKeys.jobHash jobId) "status" JobStatus.completed.name
    incr RedisKeys.jobsProcessedTotal
    incrby RedisKeys.processingTimeSum elapsed
    return (.cleanup jobId, [.completed jobId])
  | .countFailure jobId job => some do
    incr RedisKeys.jobsFailedTotal
    return (retryOrBury env.config draw jobId job, [])
  | .writeDelayed jobId nextAttempt delay => some do
    hmset (RedisKeys.jobHash jobId)
      [("status", JobStatus.delayed.name), ("attempts", nextAttempt.toString)]
    return (.zaddDelayed jobId (now + delay), [.failed jobId])
  | .writeDead jobId nextAttempt => some do
    hmset (RedisKeys.jobHash jobId)
      [("status", JobStatus.dead.name), ("attempts", nextAttempt.toString)]
    return (.lpushDead jobId, [.failed jobId])
  | .zaddDelayed jobId score => some do
    zadd (RedisKeys.delayedSet env.queueName) score jobId
    return (.cleanup jobId, [.delayed jobId])
  | .lpushDead jobId => some do
    lpush (RedisKeys.deadList env.queueName) jobId
    return (.cleanup jobId, [.buried jobId])
  | .cleanup jobId => some do
    -- the finally block, again one transaction
    hdel (RedisKeys.activeJobsHash env.queueName) jobId
    del (RedisKeys.heartbeat jobId)
    Request.lrem (RedisKeys.processingList env.queueName) 1 jobId
    return (.poll .high, [])
  | .crashed => none

/-- One command of a scheduler pass. -/
def schedulerStep (env : Env T) (now : Nat) : SchedulerPc → Request (SchedulerPc × List Event)
  | .idle => do
    let dueJobs ← zrangebyscore (RedisKeys.delayedSet env.queueName) now
    return (.next dueJobs, [])
  | .lookup jobId rest => do
    let priority ← hget (RedisKeys.jobHash jobId) "priority"
    return (.move jobId (orNormal priority) rest, [])
  | .move jobId priority rest => do
    zrem (RedisKeys.delayedSet env.queueName) jobId
    lpush (RedisKeys.waitingList env.queueName priority) jobId
    hset (RedisKeys.jobHash jobId) "status" JobStatus.waiting.name
    return (.next rest, [.released jobId])

/-- One command of a watchdog pass. The record a pass has read is kept as the code reads it;
whether it was there is whether it has a field. -/
def watchdogStep (env : Env T) : WatchdogPc → Request (WatchdogPc × List Event)
  | .idle => do
    let activeJobs ← hgetall (RedisKeys.activeJobsHash env.queueName)
    return (.readProcessing activeJobs.keys, [])
  | .readProcessing activeIds => do
    let processingIds ← Request.lrange (RedisKeys.processingList env.queueName) (some 0) (some (-1))
    let jobIds := distinct (activeIds ++ processingIds)
    return (if jobIds = [] then .idle else .readHeartbeats jobIds, [])
  | .readHeartbeats jobIds => do
    let heartbeats ← mget (jobIds.map RedisKeys.heartbeat)
    -- `heartbeats[i] === null`
    return (.next (((jobIds.zip heartbeats).filter (·.2.isNone)).map Prod.fst), [])
  | .inspect jobId rest => do
    let jobHash ← hgetall (RedisKeys.jobHash jobId)
    return (.requeue jobId (.ofHash jobHash) rest, [])
  | .requeue jobId jobHash rest => do
    -- `MULTI`; a job without a record only loses its entries
    hdel (RedisKeys.activeJobsHash env.queueName) jobId
    Request.lrem (RedisKeys.processingList env.queueName) 1 jobId
    if jobHash.isEmpty then return (.next rest, [.dropped jobId])
    else
      hmset (RedisKeys.jobHash jobId)
        [("attempts", (requeueAttempts jobHash).toString), ("status", JobStatus.waiting.name)]
      lpush (RedisKeys.waitingList env.queueName (orNormal jobHash.priority)) jobId
      return (.next rest, [.requeued jobId])

/-! ## Routes -/

/-- `getJob`. -/
def getJob (json : Json T) (id : JobId) : Request (Except JsError (Option (Job T))) := do
  let hash ← hgetall (RedisKeys.jobHash id)
  if hash.entries = [] then return .ok none
  else return (deserializeJob json (.ofHash hash)).map some

/-- The first half of `POST /jobs/:id/retry`. -/
def retryRequest (env : Env T) (id : JobId) : Request RetryPc := do
  match ← getJob env.json id with
  | .error _ => return .idle
  | .ok none => return .idle
  | .ok (some job) =>
    if job.status ≠ some JobStatus.dead.name ∧ job.status ≠ some JobStatus.failed.name then
      return .idle
    else return .requeue id job.priority

/-- The second half. -/
def retryStep (env : Env T) : RetryPc → Option (Request (RetryPc × List Event))
  | .idle => none
  | .requeue id priority => some do
    Request.lrem (RedisKeys.deadList env.queueName) 0 id
    hmset (RedisKeys.jobHash id) [("status", JobStatus.waiting.name), ("attempts", "0")]
    lpush (RedisKeys.waitingList env.queueName priority) id
    return (.idle, [.retried id])

/-- `value || '0'` on an answer to `GET`. -/
def orZero : Option String → String
  | some value => if value = "" then "0" else value
  | none => "0"

/-- `GET /stats`. -/
def stats (env : Env T) : Request StatsResponse := do
  let high ← llen (RedisKeys.waitingList env.queueName JobPriority.high.name)
  let normal ← llen (RedisKeys.waitingList env.queueName JobPriority.normal.name)
  let low ← llen (RedisKeys.waitingList env.queueName JobPriority.low.name)
  let delayed ← zcard (RedisKeys.delayedSet env.queueName)
  let dead ← llen (RedisKeys.deadList env.queueName)
  let processed ← Request.get RedisKeys.jobsProcessedTotal
  let failed ← Request.get RedisKeys.jobsFailedTotal
  let timeSum ← Request.get RedisKeys.processingTimeSum
  let processed := (parseInt (orZero processed)).toNat
  let failed := (parseInt (orZero failed)).toNat
  let timeSum := (parseInt (orZero timeSum)).toNat
  return {
    queues := { high := high, normal := normal, low := low, delayed := delayed, dead := dead }
    metrics :=
      { jobsProcessedTotal := processed
        jobsFailedTotal := failed
        avgProcessingTimeMs := if 0 < processed then timeSum / processed else 0 } }

/-- The `switch` of `GET /jobs`: the key, and whether it is a sorted set. -/
def listingKey (queue : QueueName) (status : Option String) : Option (String × Bool) :=
  if status = some "failed" then some (RedisKeys.deadList queue, false)
  else if status = some "dead" then some (RedisKeys.deadList queue, false)
  else if status = some "delayed" then some (RedisKeys.delayedSet queue, true)
  else if status = some "waiting" then
    some (RedisKeys.waitingList queue JobPriority.normal.name, false)
  else if status = some "high" then some (RedisKeys.waitingList queue JobPriority.high.name, false)
  else if status = some "low" then some (RedisKeys.waitingList queue JobPriority.low.name, false)
  else none

/-- The part of `GET /jobs` that reads the records of the page. -/
def listRecords (json : Json T) (jobIds : List JobId) : Request (ListingReply T) :=
  if jobIds = [] then return .jobs []
  else do
    let results ← jobIds.mapM fun id => hgetall (RedisKeys.jobHash id)
    match results.mapM fun hash =>
        if hash.entries = [] then .ok none else listedJob json (.ofHash hash) with
    | .error _ => return .serverError
    | .ok jobs => return .jobs (jobs.filterMap id)

/-- `GET /jobs`. -/
def listJobs (env : Env T) (status limit offset : Option String) : Request (ListingReply T) :=
  match listingKey env.queueName status with
  | none => return .badRequest ("Unsupported status filter: " ++ status.getD "undefined")
  | some (listKey, isZset) =>
    let (start, stop) := pageBounds (parseInt (offset.getD "0")) (parseInt (limit.getD "20"))
    do
      let jobIds ←
        if isZset then zrange listKey (sentBound start) (sentBound stop)
        else Request.lrange listKey (sentBound start) (sentBound stop)
      listRecords env.json jobIds

/-- What the client of a route gets: an error of Redis is an exception there, and Fastify
answers 500. -/
def answered : Option (ListingReply T × Database) → ListingReply T
  | some (reply, _) => reply
  | none => .serverError

/-! ## The system -/

/-- A state of the system, with the database for the store. -/
structure Config (T : Type) where
  db : Database
  clock : Nat
  producers : List (ProducerPc T)
  workers : List (Worker T)
  schedulers : List SchedulerPc
  watchdogs : List WatchdogPc
  retries : List RetryPc
  calls : List (Call T)
  log : List Event

/-- An empty database, everybody idle. -/
def init (topology : Topology) : Config T where
  db _ := none
  clock := 0
  producers := List.replicate topology.producers .idle
  workers := topology.workers.map fun handlers => ⟨handlers, .poll .high⟩
  schedulers := List.replicate topology.schedulers .idle
  watchdogs := List.replicate topology.watchdogs .idle
  retries := List.replicate topology.retries .idle
  calls := []
  log := []

/-- The death of a component. -/
def crash (s : Config T) : Component → Option (Config T)
  | .producer i =>
    (s.producers[i]?).map fun _ => { s with producers := s.producers.set i .idle }
  | .worker w =>
    (s.workers[w]?).map fun wk => { s with workers := s.workers.set w { wk with pc := .crashed } }
  | .scheduler i =>
    (s.schedulers[i]?).map fun _ => { s with schedulers := s.schedulers.set i .idle }
  | .watchdog i =>
    (s.watchdogs[i]?).map fun _ => { s with watchdogs := s.watchdogs.set i .idle }
  | .retry i =>
    (s.retries[i]?).map fun _ => { s with retries := s.retries.set i .idle }

/-- One step; `none` also when Redis answers with an error. -/
def step (env : Env T) (s : Config T) : Action T → Option (Config T)
  | .tick ms => some { s with clock := s.clock + ms }
  | .enqueue i id call =>
    match s.producers[i]? with
    | some .idle =>
      if id ∈ s.calls.map Call.id then none
      else some
        { s with
          producers := s.producers.set i (.save id (call.job id s.clock) call.idempotencyKey)
          calls := s.calls ++ [⟨id, call, s.clock⟩] }
    | _ => none
  | .produce i => do
    let pc ← s.producers[i]?
    let request ← producerStep env pc
    let ((pc, events), db) ← request s.clock s.db
    some { s with db := db, producers := s.producers.set i pc, log := s.log ++ events }
  | .work w draw => do
    let wk ← s.workers[w]?
    let request ← workerStep env s.clock w draw wk.handlers wk.pc
    let ((pc, events), db) ← request s.clock s.db
    some { s with
      db := db, workers := s.workers.set w { wk with pc := pc }, log := s.log ++ events }
  | .settle w outcome => do
    let wk ← s.workers[w]?
    let (pc, events) ← settleStep s.clock outcome wk.pc
    some { s with workers := s.workers.set w { wk with pc := pc }, log := s.log ++ events }
  | .renew w => do
    let wk ← s.workers[w]?
    let id ← wk.pc.renews
    let (_, db) ← setEx (RedisKeys.heartbeat id) "1" env.config.heartbeatTtlSec s.clock s.db
    some { s with db := db }
  | .process w type => do
    let wk ← s.workers[w]?
    some { s with workers := s.workers.set w { wk with handlers := type :: wk.handlers } }
  | .schedule i => do
    let pc ← s.schedulers[i]?
    let ((pc, events), db) ← schedulerStep env s.clock pc s.clock s.db
    some { s with db := db, schedulers := s.schedulers.set i pc, log := s.log ++ events }
  | .watch i => do
    let pc ← s.watchdogs[i]?
    let ((pc, events), db) ← watchdogStep env pc s.clock s.db
    some { s with db := db, watchdogs := s.watchdogs.set i pc, log := s.log ++ events }
  | .request i id =>
    match s.retries[i]? with
    | some .idle => do
      let (pc, db) ← retryRequest env id s.clock s.db
      some { s with db := db, retries := s.retries.set i pc }
    | _ => none
  | .respond i => do
    let pc ← s.retries[i]?
    let request ← retryStep env pc
    let ((pc, events), db) ← request s.clock s.db
    some { s with db := db, retries := s.retries.set i pc, log := s.log ++ events }
  | .crash component => crash s component

/-! ## Rejected commands -/

/-- A state of the system, with the jobs that handlers were last called with. -/
structure Faulty (T : Type) where
  config : Config T
  jobs : Nat → Option (Job T)

/-- The job of a handler call that ends. -/
def noteJob (s : Config T) : Action T → (Nat → Option (Job T)) → Nat → Option (Job T)
  | .settle w _, jobs =>
    match s.workers[w]? with
    | some ⟨_, .running _ job _⟩ => Function.update jobs w (some job)
    | _ => jobs
  | _, jobs => jobs

/-- One step when commands may be rejected. -/
def faultyStep (env : Env T) (r : Faulty T) : FaultyAction T → Option (Faulty T)
  | .act a => (step env r.config a).map fun s' => ⟨s', noteJob r.config a r.jobs⟩
  | .reject (.worker w) => do
    let wk ← r.config.workers[w]?
    let pc ← wk.pc.rejected (r.jobs w)
    some { r with
      config := { r.config with workers := r.config.workers.set w { wk with pc := pc } } }
  | .reject component => (crash r.config component).map fun s' => { r with config := s' }

/-- Nothing has been rejected yet. -/
def Faulty.init (topology : Topology) : Faulty T where
  config := Raw.init topology
  jobs _ := none

end Raw

end DistriSys
