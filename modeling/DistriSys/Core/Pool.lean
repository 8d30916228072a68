import DistriSys.Core.WorkerPool
import DistriSys.Js.Halting

/-!
# Starting and stopping a pool (`src/worker/WorkerPool.ts`)

`start` boots worker loops, `shutdown` clears the flag they look at and waits for them.
All loops share that flag, `isRunning`, and one array of promises, which every
`shutdown` truncates when it is done. A loop is seen here from the outside only: what it
awaits (`LoopPc`); what it does with a job is in `Core.WorkerPool`.

- `LoopPc.resume`: what a loop does between two awaits. The flag is read at the head of the
  loop, before the sleep and in the `catch` block, and nowhere else: a loop that is polling
  when it is cleared goes on with its scan, and may take a job.
- `Pool.step`: the calls of `start` and `shutdown`, an await of a loop that ends, and a
  `shutdown` that goes on after `Promise.allSettled`.
-/

namespace DistriSys

open Js

/-- What a worker loop awaits. -/
inductive LoopPc where
  /-- the answer to `RPOPLPUSH` from the waiting list of this priority -/
  | polling (priority : JobPriority)
  /-- the timer of 100 ms, after a scan that found nothing -/
  | sleeping
  /-- `processJob` -/
  | processing (jobId : JobId)
  /-- the timer of 1000 ms, after an exception -/
  | backingOff
  /-- nothing: the loop has ended and its promise is fulfilled -/
  | exited
deriving DecidableEq

/-- How an await ends. -/
inductive Awaited where
  /-- `RPOPLPUSH` answers -/
  | popped (jobId : Option JobId)
  /-- `processJob` returns -/
  | processed
  /-- `RPOPLPUSH` or `processJob` throws -/
  | thrown
  /-- the timer fires -/
  | timeout

/-- The head of the loop, `while (this.isRunning)`. -/
def LoopPc.next (isRunning : Bool) : LoopPc := if isRunning then polling .high else exited

/-- The `catch` block of the loop. -/
def LoopPc.caught (isRunning : Bool) : LoopPc := if isRunning then backingOff else next isRunning

/-- `workerLoop` from one `await` to the next. -/
def LoopPc.resume (isRunning : Bool) : LoopPc → Awaited → Option LoopPc
  | polling _, .popped (some jobId) => some (processing jobId)
  | polling .high, .popped none => some (polling .normal)
  | polling .normal, .popped none => some (polling .low)
  | polling .low, .popped none => some (if isRunning then sleeping else next isRunning)
  | polling _, .thrown => some (caught isRunning)
  | sleeping, .timeout => some (next isRunning)
  | processing _, .processed => some (next isRunning)
  | processing _, .thrown => some (caught isRunning)
  | backingOff, .timeout => some (next isRunning)
  | _, _ => none

/-- The loops that have not ended. -/
def liveLoops (loops : List LoopPc) : List Nat :=
  (List.range loops.length).filter fun i => decide (loops[i]? ≠ some .exited)

/-- A `WorkerPool`, with the loops it has ever booted and the calls of `shutdown`. -/
structure Pool where
  isRunning : Bool
  loops : List LoopPc
  /-- The loops whose promises are in the array. -/
  workerPromises : List Nat
  shutdowns : List HaltCall

/-- `new WorkerPool(queueName, concurrency)`. -/
def Pool.new : Pool := ⟨false, [], [], []⟩

/-- What happens to a pool. -/
inductive PoolAction where
  /-- `start()` -/
  | start
  /-- `shutdown()` -/
  | shutdown
  /-- An await of loop `i` ends. -/
  | resume (i : Nat) (awaited : Awaited)
  /-- `shutdown` call `k` goes on after `Promise.allSettled`. -/
  | settle (k : Nat)

/-- One step of a pool. -/
def Pool.step (concurrency : Nat) (pool : Pool) : PoolAction → Option Pool
  | .start =>
    if pool.isRunning then some { pool with shutdowns := HaltCall.started pool.shutdowns }
    else some
      { isRunning := true
        -- a loop runs up to its first `await` when it is booted
        loops := pool.loops ++ List.replicate concurrency (.next true)
        workerPromises := pool.workerPromises ++ List.range' pool.loops.length concurrency
        shutdowns := HaltCall.started pool.shutdowns }
  | .shutdown => some
      { pool with
        isRunning := false
        shutdowns := pool.shutdowns ++ [.begun pool.workerPromises] }
  | .resume i awaited => do
    let pc ← pool.loops[i]?
    let pc' ← pc.resume pool.isRunning awaited
    some { pool with loops := pool.loops.set i pc' }
  | .settle k =>
    match pool.shutdowns[k]? with
    | some call =>
      if call.resolved = false ∧ ∀ i ∈ call.awaits, pool.loops[i]? = some .exited then some
        -- also the promises of loops booted in the meantime are dropped
        { pool with
          workerPromises := []
          shutdowns := HaltCall.settle pool.shutdowns k call }
      else none
    | none => none

end DistriSys
