import DistriSys.Core.Queue
import DistriSys.Core.Routes

/-!
# Reading and writing whole records (`src/lib/redis/job-store.ts`, `distri-sdk/job-store.ts`)

A record is written in full once, by the core or by the SDK client, and in parts
from then on. It is read by `getJob` and by the listing route, which has a
decoder of its own: it spreads the hash and overrides the fields it parses, so a
field the hash lacks is lacking in the answer too.

The three decoders share no code: `deserializeJob` of the core, the one of `GET /jobs`
(`listedJob`) and `getJob`, which is the core's behind a check that the hash is not empty.
The writers are two, `serializeJob` and the SDK's. `Job.listed` is the job as the listing
shows it, and `RecordUpdate` the partial writes there are.
-/

namespace DistriSys

open Js

variable {T : Type}

/-- `serializeJob` of the SDK. -/
def Sdk.serializeJob (json : Json T) (job : Job T) : JobHash where
  id := job.id
  type := job.type
  data := some ((json.stringify job.data).getD "")
  status := job.status
  priority := some job.priority
  attempts := some job.attempts.toString
  maxAttempts := some job.maxAttempts.toString
  createdAt := some job.createdAt.toString

/-- The hash an `enqueue` call hands to `saveJob`, of the core or of the SDK. -/
def EnqueueCall.record (json : Json T) (id : JobId) (now : Nat) (call : EnqueueCall T) : JobHash :=
  match call with
  | core .. => serializeJob json (call.job id now)
  | sdk .. => Sdk.serializeJob json (call.job id now)

/-- `saveJob` on a job with this id. -/
def saveJob (st : Store) (id : JobId) (record : JobHash) : Store := st.hmset id record

/-- A partial write of the workers, the scheduler, the watchdog or the retry
route: a status, or a status and an attempts count. -/
structure RecordUpdate where
  status : JobStatus
  attempts : Option Nat

/-- The fields it writes; `attempts` goes through `toString`. -/
def RecordUpdate.fields (u : RecordUpdate) : JobHash where
  status := some u.status.name
  attempts := u.attempts.map Nat.repr

/-- `updateJobFields`; with a single field, a plain `HSET`. -/
def updateJobFields (st : Store) (id : JobId) (u : RecordUpdate) : Store := st.hmset id u.fields

/-- An element of the answer of `GET /jobs`. -/
structure ListedJob (T : Type) where
  id : Option String
  type : Option String
  data : T
  status : Option String
  priority : Option String
  attempts : JsNumber
  maxAttempts : JsNumber
  createdAt : JsNumber

/-- The decoder of `GET /jobs`: `{ ...hash, data: …, attempts: …, … }`, `null`
for an absent record. -/
def listedJob (json : Json T) (hash : JobHash) : Except JsError (Option (ListedJob T)) :=
  if hash.isEmpty then .ok none
  else
    match hash.data.bind json.parse with
    | none => .error .syntaxError
    | some data => .ok (some
        { id := hash.id
          type := hash.type
          data := data
          status := hash.status
          priority := hash.priority
          attempts := parseIntField hash.attempts
          maxAttempts := parseIntField hash.maxAttempts
          createdAt := parseIntField hash.createdAt })

/-- The same object, in the shape the listing answers with. -/
def Job.listed (job : Job T) : ListedJob T where
  id := job.id
  type := job.type
  data := job.data
  status := job.status
  priority := some job.priority
  attempts := job.attempts
  maxAttempts := job.maxAttempts
  createdAt := job.createdAt

end DistriSys
