import DistriSys.Js.Halting

/-!
# Starting and stopping the timers (`src/scheduler/Scheduler.ts`, `src/worker/Watchdog.ts`)

`Scheduler` and `Watchdog` have the same `start` and `stop`: an interval timer begins a
pass at every tick, whether or not the one before has ended, and `stop` clears the timer
and waits for the pass that began last. `Ticker` is either of them; what a pass does is in
`Core.Scheduler` and `Core.Watchdog`.

The component `commands` only records the run.

A `stop` that finds no timer resolves without waiting for anything, and one that finds a timer
waits for `currentRun`, which every tick has overwritten: the passes before the last one are
nobody's business any more. Both are in `Ticker.step` as the code has them; what they mean for
a caller of `stop` is in `Protocol.Stop`.
-/

namespace DistriSys

open Js

/-- A call of `processDelayedJobs` or `checkStalledJobs`. -/
inductive Pass where
  | unfinished
  /-- It returned or threw; exceptions are caught. -/
  | finished
deriving DecidableEq

/-- A `Scheduler` or a `Watchdog`, with the passes it has ever begun and the calls of
`stop`. -/
structure Ticker where
  /-- `this.timer !== null` -/
  timer : Bool
  /-- The pass whose promise is `this.currentRun`. -/
  currentRun : Option Nat
  passes : List Pass
  stops : List HaltCall
  /-- The passes that issued the Redis commands so far, in order. -/
  commands : List Nat

/-- `new Scheduler(queueName)`, `new Watchdog(queueName)`. -/
def Ticker.new : Ticker := ⟨false, none, [], [], []⟩

/-- What happens to a scheduler or watchdog. -/
inductive TickerAction where
  /-- `start()` -/
  | start
  /-- `stop()` -/
  | stop
  /-- The timer ticks. -/
  | tick
  /-- Pass `i` issues a Redis command. -/
  | command (i : Nat)
  /-- Pass `i` ends. -/
  | finish (i : Nat)
  /-- `stop` call `k` goes on after its `await`, or had none, and resolves. -/
  | settle (k : Nat)
deriving DecidableEq

/-- One step of a scheduler or watchdog. -/
def Ticker.step (ticker : Ticker) : TickerAction → Option Ticker
  | .start =>
    if ticker.timer then some { ticker with stops := HaltCall.started ticker.stops }
    else some { ticker with timer := true, stops := HaltCall.started ticker.stops }
  | .stop =>
    if ticker.timer then some
      { ticker with timer := false, stops := ticker.stops ++ [.begun ticker.currentRun.toList] }
    -- nothing to wait for, whatever an earlier `stop` is waiting for
    else some { ticker with stops := ticker.stops ++ [.begun []] }
  | .tick =>
    if ticker.timer then some
      { ticker with
        currentRun := some ticker.passes.length
        passes := ticker.passes ++ [.unfinished] }
    else none
  | .command i =>
    if ticker.passes[i]? = some .unfinished then some
      { ticker with commands := ticker.commands ++ [i] }
    else none
  | .finish i =>
    if ticker.passes[i]? = some .unfinished then some
      { ticker with passes := ticker.passes.set i .finished }
    else none
  | .settle k =>
    match ticker.stops[k]? with
    | some call =>
      if call.resolved = false ∧ ∀ i ∈ call.awaits, ticker.passes[i]? = some .finished then some
        { ticker with stops := HaltCall.settle ticker.stops k call }
      else none
    | none => none

end DistriSys
