import DistriSys.Core.Store

/-!
# Producers (`src/queue/Queue.ts`, `src/lib/redis/scripts.ts`, `distri-sdk/Queue.ts`)

An `enqueue` call builds its job without talking to Redis, then issues two or
three commands. `ProducerPc` is the next command of a call together with what
the call still holds; `producerStep` runs that command and everything up to the
next one.

The commands are, in this order: `HMSET` of the record, then, without an idempotency key, an
`LPUSH` on the waiting list of the priority; with one, the script, which claims the slot and
pushes, or answers with the id that holds it. A call that is turned down deletes the record it
has written and returns the id of the other job. `producerStep_claim_free` and
`producerStep_claim_held` are the two answers of the script.
-/

namespace DistriSys

open Js Redis

variable {T : Type}

/-- The third argument of `enqueue`: absent, a priority, or an options object. -/
inductive OptionsOrPriority where
  | absent
  | priority (priority : JobPriority)
  | options (priority : Option JobPriority) (maxAttempts : Option JsNumber)
      (idempotencyKey : Option String)

/-- A call of `enqueue`, of the core `Queue` or of the SDK's. -/
inductive EnqueueCall (T : Type) where
  | core (type : String) (data : T) (optionsOrPriority : OptionsOrPriority)
      (legacyMaxAttempts : Option JsNumber)
  | sdk (type : String) (data : T) (priority : Option JobPriority) (maxAttempts : Option JsNumber)

namespace EnqueueCall

def type : EnqueueCall T → String
  | core type _ _ _ => type
  | sdk type _ _ _ => type

def data : EnqueueCall T → T
  | core _ data _ _ => data
  | sdk _ data _ _ => data

/-- The priority the job gets. -/
def priority : EnqueueCall T → JobPriority
  | core _ _ (.options p _ _) _ => p.getD .normal
  | core _ _ (.priority p) _ => p
  | core _ _ .absent _ => .normal
  | sdk _ _ p _ => p.getD .normal

/-- The attempt limit the job gets. -/
def maxAttempts : EnqueueCall T → JsNumber
  | core _ _ (.options _ m _) _ => m.getD 3
  | core _ _ (.priority _) legacy => legacy.getD 3
  | core _ _ .absent _ => 3
  | sdk _ _ _ m => m.getD 3

/-- The idempotency key, unless it is missing or empty (`if (idempotencyKey)`). -/
def idempotencyKey : EnqueueCall T → Option String
  | core _ _ (.options _ _ key) _ => key.filter (· ≠ "")
  | _ => none

/-- The job object a call at time `now` builds under the fresh `id`. -/
def job (id : JobId) (now : Nat) (call : EnqueueCall T) : Job T where
  id := some id
  type := some call.type
  data := call.data
  status := some JobStatus.waiting.name
  priority := call.priority.name
  attempts := 0
  maxAttempts := call.maxAttempts
  createdAt := .int now

end EnqueueCall

/-- The `idempotentEnqueue` script: claim the slot and push, or return its holder. -/
def Store.idempotentEnqueue (st : Store) (now : Nat) (idempotencyKey : String)
    (waitingListKey : ListKey) (jobId : JobId) (ttl : Nat) : JobId × Store :=
  match Volatile.get? now (st.idempotency idempotencyKey) with
  | none =>
    (jobId, { st with
      idempotency := Function.update st.idempotency idempotencyKey (some (.setEx now ttl jobId))
      }.lpush waitingListKey jobId)
  | some holder => (holder, st)

section

variable {st : Store} {now ttl : Nat} {key : String} {list : ListKey} {id : JobId}

@[simp] theorem Store.jobs_idempotentEnqueue :
    (st.idempotentEnqueue now key list id ttl).2.jobs = st.jobs := by
  unfold Store.idempotentEnqueue
  split <;> rfl

@[simp] theorem Store.delayed_idempotentEnqueue :
    (st.idempotentEnqueue now key list id ttl).2.delayed = st.delayed := by
  unfold Store.idempotentEnqueue
  split <;> rfl

end

/-- `"86400"`, the time an idempotency key is held. -/
def idempotencyTtlSec : Nat := 86400

/-- The next command of an `enqueue` call. -/
inductive ProducerPc (T : Type) where
  | idle
  /-- `saveJob`: `HMSET job:<id>` -/
  | save (id : JobId) (job : Job T) (key : Option String)
  /-- the `idempotentEnqueue` script -/
  | claim (id : JobId) (job : Job T) (key : String)
  /-- `LPUSH` on the waiting list -/
  | push (id : JobId) (job : Job T)
  /-- `DEL job:<id>` after a collision -/
  | discard (id claimedId : JobId)

/-- One command of an `enqueue` call. -/
def producerStep (env : Env T) (now : Nat) (st : Store) :
    ProducerPc T → Option (Effect (ProducerPc T))
  | .idle => none
  | .save id job key => some
      { store := st.hmset id (serializeJob env.json job)
        pc := match key with
          | some key => .claim id job key
          | none => .push id job }
  | .claim id job key =>
    let (claimedId, st') := st.idempotentEnqueue now key (.waitingList env.queueName job.priority)
      id idempotencyTtlSec
    let pushed := if (Volatile.get? now (st.idempotency key)).isNone then [Event.pushed id] else []
    if claimedId ≠ id then
      -- a collision: the record just saved is an orphan
      some { store := st', pc := .discard id claimedId, events := pushed }
    else
      some { store := st', pc := .idle, events := pushed ++ [.returnedJob id] }
  | .push id job => some
      { store := st.lpush (.waitingList env.queueName job.priority) id
        pc := .idle
        events := [.pushed id, .returnedJob id] }
  | .discard id claimedId => some
      { store := st.delJob id
        pc := .idle
        events := [.returnedId id claimedId] }

section Claim

variable {env : Env T} {now : Nat} {st : Store} {id holder : JobId} {job : Job T} {key : String}

/-- Whatever its answer, the store is what the script leaves. -/
theorem store_of_claim {e : Effect (ProducerPc T)}
    (he : producerStep env now st (.claim id job key) = some e) :
    e.store = (st.idempotentEnqueue now key (.waitingList env.queueName job.priority) id
      idempotencyTtlSec).2 := by
  simp only [producerStep] at he
  split at he <;> cases he <;> rfl

/-- Claiming a free slot ends the call with a push. -/
theorem producerStep_claim_free (h : Volatile.get? now (st.idempotency key) = none) :
    producerStep env now st (.claim id job key) = some
      { store := (st.idempotentEnqueue now key (.waitingList env.queueName job.priority) id
          idempotencyTtlSec).2
        pc := .idle
        events := [.pushed id, .returnedJob id] } := by
  simp [producerStep, Store.idempotentEnqueue, h]

/-- Claiming a slot that another job holds changes nothing in Redis. -/
theorem producerStep_claim_held (h : Volatile.get? now (st.idempotency key) = some holder)
    (hne : holder ≠ id) :
    producerStep env now st (.claim id job key) = some { store := st, pc := .discard id holder } := by
  simp [producerStep, Store.idempotentEnqueue, h, hne]

end Claim

end DistriSys
