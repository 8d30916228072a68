import DistriSys.Core.Records
import DistriSys.Js.Double

/-!
# The listing route (`src/api/routes.ts`)

`GET /jobs?status=<status>&limit=20&offset=0`: the query parameters come as strings,
the ids of the page are read off a list or a sorted set, and their records in one
transaction.

Nothing is checked on the way. `parseInt` may answer `NaN`, the sum `offset + limit - 1` is
one of doubles, and a bound goes to Redis as the text of a number; Redis takes it for a
position if it is an integer of 64 bits, counts it from the right end if it is negative, and
answers with an error otherwise, which the route does not catch.
-/

namespace DistriSys

open Js Redis

/-- What a status filter ranges over. -/
inductive ListingSource where
  | list (listKey : ListKey)
  | zset (queue : QueueName)
deriving DecidableEq

/-- The `switch` over the status filter; `none` is its `default` branch. -/
def listingSource (queue : QueueName) (status : Option String) : Option ListingSource :=
  if status = some "failed" then some (.list (.deadList queue))
  else if status = some "dead" then some (.list (.deadList queue))
  else if status = some "delayed" then some (.zset queue)
  else if status = some "waiting" then some (.list (.waitingList queue JobPriority.normal.name))
  else if status = some "high" then some (.list (.waitingList queue JobPriority.high.name))
  else if status = some "low" then some (.list (.waitingList queue JobPriority.low.name))
  else none

/-- The ids a source holds, in the order Redis ranges over them. -/
def ListingSource.ids (st : Store) : ListingSource → List JobId
  | list listKey => st.lists listKey
  | zset queue => (st.delayed queue).members

/-- The answer of the route. -/
inductive ListingReply (T : Type) where
  | jobs (jobs : List (ListedJob T))
  /-- 400 -/
  | badRequest (error : String)
  /-- 500: an exception -/
  | serverError

variable {T : Type}

/-- The part of the route that reads the records of the page. -/
def listRecords (json : Json T) (st : Store) (jobIds : List JobId) : ListingReply T :=
  if jobIds = [] then .jobs []
  else
    match jobIds.mapM fun id => listedJob json (st.jobs id) with
    | .error _ => .serverError
    | .ok jobs => .jobs (jobs.filterMap id)

/-- `start` and `stop` of the page, `offset` and `offset + limit - 1`. Both are doubles, so every
step rounds; `none` is `NaN`. -/
def pageBounds : JsNumber → JsNumber → Option Int × Option Int
  | .int offset, .int limit =>
    let start := toDouble offset
    (some start, some (toDouble (toDouble (start + toDouble limit) - 1)))
  | .int offset, _ => (some (toDouble offset), none)
  | _, _ => (none, none)

/-- The integer Redis reads where a number is sent: the client sends its text, which for `NaN`
and from `10^21` up, where there is an exponent, is no integer. -/
def sentBound (bound : Option Int) : Option Int :=
  bound.bind fun z => if z.natAbs < 10 ^ 21 then some (printed z) else none

/-- `GET /jobs`. -/
def listJobs (env : Env T) (st : Store) (status limit offset : Option String) : ListingReply T :=
  match listingSource env.queueName status with
  | none => .badRequest ("Unsupported status filter: " ++ status.getD "undefined")
  | some source =>
    let (start, stop) := pageBounds (parseInt (offset.getD "0")) (parseInt (limit.getD "20"))
    match lrange (source.ids st) (sentBound start) (sentBound stop) with
    | some jobIds => listRecords env.json st jobIds
    -- Redis refuses a bound, and the command throws
    | none => .serverError

end DistriSys
