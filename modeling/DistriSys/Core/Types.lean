import DistriSys.Js.Number

/-!
# Types of the task queue (`src/types/index.ts`, `src/config/index.ts`)

Jobs, their status and priority, and the parameters every component of one
queue shares. Status and priority are enumerations where the code builds them
and plain strings where it reads them back from Redis: `deserializeJob` casts
without checking.

`Env` gathers what is fixed for an installation: the name of the queue, its configuration, and
the functions of the runtime that the model leaves open (`Json`). `mainQueue` is the
installation of `src/index.ts` with its defaults, for runs that are carried out.
-/

namespace DistriSys

open Js

/-- `Job['id']`, a uuid. -/
abbrev JobId := String

/-- The name of a queue. -/
abbrev QueueName := String

/-- `JobStatus`. -/
inductive JobStatus where
  | waiting
  | active
  | completed
  | failed
  | delayed
  | dead
deriving DecidableEq

/-- The string a status is stored as. -/
def JobStatus.name : JobStatus → String
  | waiting => "waiting"
  | active => "active"
  | completed => "completed"
  | failed => "failed"
  | delayed => "delayed"
  | dead => "dead"

theorem JobStatus.name_injective : Function.Injective JobStatus.name := by
  intro a b h
  cases a <;> cases b <;> first | rfl | exact absurd h (by decide)

@[simp] theorem JobStatus.name_inj {a b : JobStatus} : a.name = b.name ↔ a = b :=
  name_injective.eq_iff

/-- `JobPriority`. -/
inductive JobPriority where
  | high
  | normal
  | low
deriving DecidableEq

/-- The string a priority is stored as. -/
def JobPriority.name : JobPriority → String
  | high => "high"
  | normal => "normal"
  | low => "low"

theorem JobPriority.name_ne_empty (p : JobPriority) : p.name ≠ "" := by
  cases p <;> decide

theorem JobPriority.name_injective : Function.Injective JobPriority.name := by
  intro a b h
  cases a <;> cases b <;> first | rfl | exact absurd h (by decide)

@[simp] theorem JobPriority.name_inj {a b : JobPriority} : a.name = b.name ↔ a = b :=
  name_injective.eq_iff

/-- `PRIORITIES`. -/
def priorities : List JobPriority := [.high, .normal, .low]

/-- `Job<T>`. A string field is `none` where JavaScript has `undefined`: that is
what `deserializeJob` yields for a field the record lacks. -/
structure Job (T : Type) where
  id : Option String
  type : Option String
  data : T
  status : Option String
  priority : String
  attempts : JsNumber
  maxAttempts : JsNumber
  createdAt : JsNumber

/-- `ActiveJobEntry`. -/
structure ActiveJobEntry where
  workerId : Nat
  startedAt : Nat
  timeout : Nat
deriving DecidableEq

/-- The entries of `QueueConfig` that reach Redis. -/
structure QueueConfig where
  heartbeatTtlSec : Nat
  maxDelayMs : Nat
  jitterMs : Nat

/-- `loadConfig` when the environment overrides nothing. -/
def loadConfig : QueueConfig where
  heartbeatTtlSec := 15
  maxDelayMs := 30000
  jitterMs := 200

/-- `JSON` on the job payloads `T`: `stringify` gives `none` for `undefined`,
`parse` gives `none` where it throws a `SyntaxError`. -/
structure Json (T : Type) where
  stringify : T → Option String
  parse : String → Option T

/-- What the components of one queue share. -/
structure Env (T : Type) where
  queueName : QueueName
  config : QueueConfig
  json : Json T

/-- The queue of a default installation whose jobs all carry the payload `null`. -/
def mainQueue : Env Unit where
  queueName := "main_queue"
  config := loadConfig
  json :=
    { stringify := fun _ => some "null"
      parse := fun s => if s = "null" then some () else none }

/-- `value || 'normal'` on a string that may be `undefined`. -/
def orNormal : Option String → String
  | some p => if p = "" then JobPriority.normal.name else p
  | none => JobPriority.normal.name

@[simp] theorem orNormal_name (p : JobPriority) : orNormal (some p.name) = p.name :=
  if_neg p.name_ne_empty

end DistriSys
