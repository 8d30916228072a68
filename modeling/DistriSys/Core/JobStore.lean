import DistriSys.Core.Types

/-!
# Job records (`src/lib/redis/job-store.ts`)

A job is stored as a flat Redis hash. `JobHash` is such a hash with its eight
possible fields; the hash with no field at all is the absent key, which is what
`HGETALL` answers for it. Writing fields merges them over what is there
(`JobHash.patch`), so a write to an absent key leaves a stub record.

- `serializeJob` writes every field as a string. A payload for which `JSON.stringify` has no
  text goes in as the empty string.
- `deserializeJob` reads the fields back. `JSON.parse` of the payload may throw, and then
  nobody gets the job; all other fields are cast, parsed or taken as they are.
- `deserializeJob_carries` says field by field what a decoded job takes over from the hash.
-/

namespace DistriSys

open Js

/-- A record hash: the fields that are present. Also the argument of a partial
`HSET`/`HMSET`, where `none` means "not written". -/
structure JobHash where
  id : Option String := none
  type : Option String := none
  data : Option String := none
  status : Option String := none
  priority : Option String := none
  attempts : Option String := none
  maxAttempts : Option String := none
  createdAt : Option String := none
deriving DecidableEq

namespace JobHash

/-- The absent key. -/
def absent : JobHash := {}

/-- `Object.keys(hash).length === 0`. -/
def isEmpty (h : JobHash) : Bool := decide (h = absent)

/-- The record `h` after `HMSET` with `fields`. -/
def patch (h fields : JobHash) : JobHash where
  id := fields.id <|> h.id
  type := fields.type <|> h.type
  data := fields.data <|> h.data
  status := fields.status <|> h.status
  priority := fields.priority <|> h.priority
  attempts := fields.attempts <|> h.attempts
  maxAttempts := fields.maxAttempts <|> h.maxAttempts
  createdAt := fields.createdAt <|> h.createdAt

end JobHash

/-- Why a JavaScript call threw. -/
inductive JsError where
  | syntaxError
deriving DecidableEq

section Serialization

variable {T : Type}

/-- `serializeJob`. The client sends an `undefined` payload as the empty string. -/
def serializeJob (json : Json T) (job : Job T) : JobHash where
  id := job.id
  type := job.type
  data := some ((json.stringify job.data).getD "")
  status := job.status
  priority := some job.priority
  attempts := some job.attempts.toString
  maxAttempts := some job.maxAttempts.toString
  createdAt := some job.createdAt.toString

/-- `deserializeJob`; `JSON.parse` may throw, also on a missing `data` field. -/
def deserializeJob (json : Json T) (hash : JobHash) : Except JsError (Job T) :=
  match hash.data.bind json.parse with
  | none => .error .syntaxError
  | some data => .ok
      { id := hash.id
        type := hash.type
        data := data
        status := hash.status
        priority := orNormal hash.priority
        attempts := parseIntField hash.attempts
        maxAttempts := parseIntField hash.maxAttempts
        createdAt := parseIntField hash.createdAt }

theorem deserializeJob_eq_ok {json : Json T} {hash : JobHash} {job : Job T}
    (h : deserializeJob json hash = .ok job) :
    job.type = hash.type ∧ job.priority = orNormal hash.priority ∧
      job.status = hash.status ∧ job.attempts = parseIntField hash.attempts ∧
      job.maxAttempts = parseIntField hash.maxAttempts := by
  unfold deserializeJob at h
  split at h
  · cases h
  · cases h
    exact ⟨rfl, rfl, rfl, rfl, rfl⟩

/-- The fields no component branches on. -/
theorem deserializeJob_carries {json : Json T} {hash : JobHash} {job : Job T}
    (h : deserializeJob json hash = .ok job) :
    job.id = hash.id ∧ hash.data.bind json.parse = some job.data ∧
      job.createdAt = parseIntField hash.createdAt := by
  unfold deserializeJob at h
  split at h
  · cases h
  · next data hdata =>
    cases h
    exact ⟨rfl, hdata, rfl⟩

end Serialization

end DistriSys
