import DistriSys.Core.Pool
import DistriSys.Core.Ticker

/-!
# A process with workers (`src/worker.ts`, `src/index.ts`)

The main program starts a pool, a watchdog and a scheduler. Each `SIGINT` or `SIGTERM` calls
its `shutdown`, which stops the timers, waits for the pool, in `index.ts` also for the
server, then closes the Redis connection and exits. Nothing keeps a second signal from
calling it again.

In `worker.ts`, `start` is over before a signal can be handled: it awaits only what is
already resolved. In `index.ts` it then awaits `fastify.listen`, with everything running,
and a port that is taken makes its `catch` block end the process, whatever a signal has
called in the meantime. `resetRedis` catches what `quit` throws; `fastify.close` may reject
too, and as nothing handles that, Node ends the process.
-/

namespace DistriSys

open Js

/-- What a call of `shutdown` awaits. -/
inductive ShutdownPc where
  /-- the `k`-th call of `pool.shutdown()` -/
  | pool (k : Nat)
  /-- `fastify.close()` -/
  | server
  /-- `resetRedis()` -/
  | redis
deriving DecidableEq

/-- How far `start` is, after its timers. -/
inductive StartPc where
  /-- it awaits `fastify.listen()` -/
  | listening
  | booted
  /-- its `catch` block has been run -/
  | failed
deriving DecidableEq

/-- A process, with its calls of `shutdown`. -/
structure Process where
  pool : Pool
  watchdog : Ticker
  scheduler : Ticker
  starting : StartPc
  shutdowns : List ShutdownPc
  /-- The code it has exited with. -/
  exitCode : Option Nat

/-- What happens to a process. -/
inductive ProcessAction where
  /-- `fastify.listen()` resolves, or rejects. -/
  | listen (ok : Bool)
  /-- `SIGINT` or `SIGTERM` -/
  | signal
  /-- An await of worker loop `i` ends. -/
  | resume (i : Nat) (awaited : Awaited)
  /-- Call `k` of `pool.shutdown` goes on after `Promise.allSettled`. -/
  | settle (k : Nat)
  /-- Something happens to the watchdog. -/
  | watchdog (a : TickerAction)
  /-- Something happens to the scheduler. -/
  | scheduler (a : TickerAction)
  /-- Call `m` of `shutdown` goes on. -/
  | proceed (m : Nat)
  /-- `fastify.close()` rejects in call `m` of `shutdown`. -/
  | abort (m : Nat)

/-- `start`, as far as it runs before a signal can be handled; with `api`, the process
serves the API as well. -/
def Process.start (api : Bool) (concurrency : Nat) : Process where
  pool := (Pool.new.step concurrency .start).getD .new
  watchdog := (Ticker.new.step .start).getD .new
  scheduler := (Ticker.new.step .start).getD .new
  starting := if api then .listening else .booted
  shutdowns := []
  exitCode := none

/-- The timers on their own; `start` and `stop` are called by the main program. -/
def Ticker.run (ticker : Ticker) (a : TickerAction) : Option Ticker :=
  if a = .start ∨ a = .stop then none else ticker.step a

/-- One step of a process. -/
def Process.step (api : Bool) (concurrency : Nat) (p : Process) (a : ProcessAction) :
    Option Process :=
  if p.exitCode.isSome then none
  else match a with
    | .listen ok =>
      if p.starting = .listening then
        -- `process.exit(1)` waits for no loop
        some (if ok then { p with starting := .booted }
          else { p with starting := .failed, exitCode := some 1 })
      else none
    | .signal => do
      let watchdog ← p.watchdog.step .stop
      let scheduler ← p.scheduler.step .stop
      let pool ← p.pool.step concurrency .shutdown
      some { p with
        watchdog := watchdog
        scheduler := scheduler
        pool := pool
        shutdowns := p.shutdowns ++ [.pool p.pool.shutdowns.length] }
    | .resume i awaited =>
      (p.pool.step concurrency (.resume i awaited)).map fun pool => { p with pool := pool }
    | .settle k => (p.pool.step concurrency (.settle k)).map fun pool => { p with pool := pool }
    | .watchdog a => (p.watchdog.run a).map fun watchdog => { p with watchdog := watchdog }
    | .scheduler a => (p.scheduler.run a).map fun scheduler => { p with scheduler := scheduler }
    | .proceed m =>
      match p.shutdowns[m]? with
      | some (.pool k) =>
        if (p.pool.shutdowns[k]?).any (·.resolved) then some
          { p with shutdowns := p.shutdowns.set m (if api then .server else .redis) }
        else none
      | some .server => some { p with shutdowns := p.shutdowns.set m .redis }
      | some .redis => some { p with exitCode := some 0 }
      | none => none
    | .abort m =>
      if p.shutdowns[m]? = some .server then some { p with exitCode := some 1 } else none

end DistriSys
