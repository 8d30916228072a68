import DistriSys.Core.Store

/-!
# The names of the Redis keys (`src/lib/redis/keys.ts`, `distri-sdk/keys.ts`)

`Store` has a component for each kind of key. Here are the strings the code
addresses them by. Queue names, job ids and idempotency keys go into them as
they are.

The core and the SDK have a builder each for the same key, and the idempotency prefix is
spelled out a third time in the `enqueue` call. `RedisKey` is the sum of all builders with
their arguments, `RedisKey.name` the string; that it is injective is in `Protocol.Keys`.
-/

namespace DistriSys

namespace RedisKeys

/-- `job:<id>` -/
def jobHash (id : JobId) : String := "job:" ++ id

/-- `queue:<name>:waiting:<priority>` -/
def waitingList (queue : QueueName) (priority : String) : String :=
  "queue:" ++ queue ++ ":waiting:" ++ priority

/-- `queue:<name>:processing` -/
def processingList (queue : QueueName) : String := "queue:" ++ queue ++ ":processing"

/-- `queue:<name>:delayed` -/
def delayedSet (queue : QueueName) : String := "queue:" ++ queue ++ ":delayed"

/-- `queue:<name>:dead` -/
def deadList (queue : QueueName) : String := "queue:" ++ queue ++ ":dead"

/-- `active_jobs:<queue>` -/
def activeJobsHash (queue : QueueName) : String := "active_jobs:" ++ queue

/-- `heartbeat:<id>` -/
def heartbeat (id : JobId) : String := "heartbeat:" ++ id

def jobsProcessedTotal : String := "jobs_processed_total"

def jobsFailedTotal : String := "jobs_failed_total"

def processingTimeSum : String := "processing_time_sum_ms"

end RedisKeys

/-- `idempotency:<key>`, built by `enqueue` itself. -/
def idempotencyRedisKey (idempotencyKey : String) : String := "idempotency:" ++ idempotencyKey

namespace Sdk.RedisKeys

/-- `job:<id>` -/
def jobHash (id : JobId) : String := "job:" ++ id

/-- `queue:<name>:waiting:<priority>` -/
def waitingList (queue : QueueName) (priority : String) : String :=
  "queue:" ++ queue ++ ":waiting:" ++ priority

/-- `queue:<name>:delayed` -/
def delayedSet (queue : QueueName) : String := "queue:" ++ queue ++ ":delayed"

/-- `queue:<name>:dead` -/
def deadList (queue : QueueName) : String := "queue:" ++ queue ++ ":dead"

end Sdk.RedisKeys

/-- A key of the code: a builder with its arguments. -/
inductive RedisKey where
  | jobHash (id : JobId)
  | waitingList (queue : QueueName) (priority : JobPriority)
  | processingList (queue : QueueName)
  | delayedSet (queue : QueueName)
  | deadList (queue : QueueName)
  | activeJobsHash (queue : QueueName)
  | heartbeat (id : JobId)
  | idempotency (key : String)
  | jobsProcessedTotal
  | jobsFailedTotal
  | processingTimeSum
deriving DecidableEq

/-- The string the builder returns. -/
def RedisKey.name : RedisKey → String
  | jobHash id => RedisKeys.jobHash id
  | waitingList queue priority => RedisKeys.waitingList queue priority.name
  | processingList queue => RedisKeys.processingList queue
  | delayedSet queue => RedisKeys.delayedSet queue
  | deadList queue => RedisKeys.deadList queue
  | activeJobsHash queue => RedisKeys.activeJobsHash queue
  | heartbeat id => RedisKeys.heartbeat id
  | idempotency key => idempotencyRedisKey key
  | jobsProcessedTotal => RedisKeys.jobsProcessedTotal
  | jobsFailedTotal => RedisKeys.jobsFailedTotal
  | processingTimeSum => RedisKeys.processingTimeSum

end DistriSys
