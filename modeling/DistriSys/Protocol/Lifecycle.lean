import DistriSys.Core.Types

/-!
# The life cycle of one job

An abstract account of a single job, without queues, clocks or other jobs: how
many copies of its id lie in each place, how many workers stand in each phase of
running it, what its record says, and how often each thing has happened
(`Ledger`). A `Move` is one thing that can happen to it. `Refinement` shows that
the system, seen from any one job, is such a machine; the safety properties about
copies and attempts are then invariants of `Ledger.step`, proved by arithmetic.

A worker holds the job from taking it off a waiting list to its clean-up. The
processing list is meant to hold one copy for each holder, but nothing enforces
it: a clean-up and a watchdog both remove *some* copy of the id.
-/

namespace DistriSys

open Js

/-- How far a worker is with a job it holds. -/
inductive Phase where
  /-- taken, the handler is not called yet -/
  | loading
  /-- the handler is running -/
  | running
  /-- the handler rejected, the new attempts count is not written yet -/
  | failing
  /-- about to enter the delayed set -/
  | delaying
  /-- about to enter the dead list -/
  | burying
  /-- the handler resolved, the success transaction is still to come -/
  | completing
  /-- only the clean-up is left -/
  | closing
deriving DecidableEq

/-- The account of one job. -/
@[ext] structure Ledger where
  /-- `enqueue` calls that drew this id -/
  called : Nat := 0
  /-- producers that have not pushed it yet -/
  announced : Nat := 0
  /-- copies on the waiting lists -/
  waiting : Nat := 0
  /-- copies on the processing list -/
  processing : Nat := 0
  /-- members of the delayed set (0 or 1) -/
  delayed : Nat := 0
  /-- copies on the dead list -/
  dead : Nat := 0
  -- workers in each phase
  loading : Nat := 0
  running : Nat := 0
  failing : Nat := 0
  delaying : Nat := 0
  burying : Nat := 0
  completing : Nat := 0
  closing : Nat := 0
  -- the record
  status : Option String := none
  attempts : Option String := none
  -- how often things have happened
  pushed : Nat := 0
  /-- the `job.attempts` of the handler calls, in order -/
  starts : List JsNumber := []
  resolved : Nat := 0
  rejected : Nat := 0
  completed : Nat := 0
  failed : Nat := 0
  /-- how often it entered the delayed set -/
  filed : Nat := 0
  released : Nat := 0
  requeued : Nat := 0
  retried : Nat := 0

/-- One thing that happens to a job. -/
inductive Move where
  | stutter
  /-- an `enqueue` call draws the id -/
  | announce
  | save
  | publish
  /-- a producer gives the job up, or dies -/
  | withdraw
  | erase
  /-- a worker takes a copy off a waiting list -/
  | take
  | activate
  /-- no handler is registered for its type -/
  | misfit
  /-- its record cannot be decoded -/
  | forsake
  | start (attempts : JsNumber)
  | resolve
  | reject
  | complete
  | failDelayed (attempts : String)
  | failDead (attempts : String)
  | delay
  | bury
  | cleanup
  /-- a worker in this phase dies -/
  | die (phase : Phase)
  /-- the scheduler's transaction -/
  | release
  /-- the watchdog's transaction -/
  | requeue (attempts : String)
  /-- the transaction of a retry request -/
  | retry

namespace Ledger

/-- How many workers are in a phase. -/
def phase (L : Ledger) : Phase → Nat
  | .loading => L.loading
  | .running => L.running
  | .failing => L.failing
  | .delaying => L.delaying
  | .burying => L.burying
  | .completing => L.completing
  | .closing => L.closing

/-- The account after a worker in this phase is gone. -/
def leave (L : Ledger) : Phase → Ledger
  | .loading => { L with loading := L.loading - 1 }
  | .running => { L with running := L.running - 1 }
  | .failing => { L with failing := L.failing - 1 }
  | .delaying => { L with delaying := L.delaying - 1 }
  | .burying => { L with burying := L.burying - 1 }
  | .completing => { L with completing := L.completing - 1 }
  | .closing => { L with closing := L.closing - 1 }

/-- The workers that hold the job. -/
def holders (L : Ledger) : Nat :=
  L.loading + L.running + L.failing + L.delaying + L.burying + L.completing + L.closing

/-- When a move can happen. -/
def enabled (L : Ledger) : Move → Prop
  | .stutter => True
  | .announce => L.called = 0
  | .save => 1 ≤ L.announced ∧ L.pushed = 0
  | .publish => 1 ≤ L.announced
  | .withdraw => 1 ≤ L.announced
  | .erase => L.pushed = 0
  | .take => 1 ≤ L.waiting
  | .activate => 1 ≤ L.loading
  | .misfit => 1 ≤ L.loading
  | .forsake => 1 ≤ L.loading
  | .start _ => 1 ≤ L.loading
  | .resolve => 1 ≤ L.running
  | .reject => 1 ≤ L.running
  | .complete => 1 ≤ L.completing
  | .failDelayed _ => 1 ≤ L.failing
  | .failDead _ => 1 ≤ L.failing
  | .delay => 1 ≤ L.delaying
  | .bury => 1 ≤ L.burying
  | .cleanup => 1 ≤ L.closing
  | .die phase => 1 ≤ L.phase phase
  | .release => 1 ≤ L.pushed
  | .requeue _ => 1 ≤ L.pushed
  | .retry => 1 ≤ L.pushed

/-- The account after a move. -/
def apply (L : Ledger) : Move → Ledger
  | .stutter => L
  | .announce => { L with called := L.called + 1, announced := L.announced + 1 }
  | .save => { L with status := some JobStatus.waiting.name, attempts := some "0" }
  | .publish =>
    { L with announced := L.announced - 1, waiting := L.waiting + 1, pushed := L.pushed + 1 }
  | .withdraw => { L with announced := L.announced - 1 }
  | .erase => { L with status := none, attempts := none }
  | .take =>
    { L with
      waiting := L.waiting - 1, processing := L.processing + 1, loading := L.loading + 1 }
  | .activate => { L with status := some JobStatus.active.name }
  | .misfit => { L with loading := L.loading - 1, status := some JobStatus.failed.name }
  | .forsake => { L with loading := L.loading - 1 }
  | .start attempts =>
    { L with
      loading := L.loading - 1, running := L.running + 1, starts := L.starts ++ [attempts] }
  | .resolve =>
    { L with
      running := L.running - 1, completing := L.completing + 1, resolved := L.resolved + 1 }
  | .reject =>
    { L with running := L.running - 1, failing := L.failing + 1, rejected := L.rejected + 1 }
  | .complete =>
    { L with
      completing := L.completing - 1, closing := L.closing + 1, completed := L.completed + 1
      status := some JobStatus.completed.name }
  | .failDelayed attempts =>
    { L with
      failing := L.failing - 1, delaying := L.delaying + 1, failed := L.failed + 1
      status := some JobStatus.delayed.name, attempts := some attempts }
  | .failDead attempts =>
    { L with
      failing := L.failing - 1, burying := L.burying + 1, failed := L.failed + 1
      status := some JobStatus.dead.name, attempts := some attempts }
  -- a member of a sorted set is there once, however often it is added
  | .delay =>
    { L with
      delaying := L.delaying - 1, closing := L.closing + 1, filed := L.filed + 1, delayed := 1 }
  | .bury =>
    { L with burying := L.burying - 1, closing := L.closing + 1, dead := L.dead + 1 }
  | .cleanup => { L with closing := L.closing - 1, processing := L.processing - 1 }
  | .die phase => L.leave phase
  | .release =>
    { L with
      delayed := 0, waiting := L.waiting + 1, released := L.released + 1
      status := some JobStatus.waiting.name }
  -- the copy `LREM` takes, if there is one, may be another dispatch's
  | .requeue attempts =>
    { L with
      processing := L.processing - 1, waiting := L.waiting + 1, requeued := L.requeued + 1
      status := some JobStatus.waiting.name, attempts := some attempts }
  -- `LREM` with count 0 takes every copy
  | .retry =>
    { L with
      dead := 0, waiting := L.waiting + 1, retried := L.retried + 1
      status := some JobStatus.waiting.name, attempts := some "0" }

/-- `L'` is the account after the move `m`, which can happen. -/
def Steps (L : Ledger) (m : Move) (L' : Ledger) : Prop := L.enabled m ∧ L' = L.apply m

end Ledger

/-! ## What holds whatever happens -/

/-- A job is announced and pushed once, and is nowhere before its push. -/
structure Ledger.Published (L : Ledger) : Prop where
  once : L.announced + L.pushed ≤ L.called
  called : L.called ≤ 1
  nowhere : L.pushed = 0 →
    L.waiting = 0 ∧ L.processing = 0 ∧ L.delayed = 0 ∧ L.dead = 0 ∧ L.holders = 0 ∧
      L.starts.length = 0 ∧ L.resolved = 0 ∧ L.failed = 0 ∧ L.requeued = 0

theorem published_init : Ledger.Published {} where
  once := Nat.le_refl 0
  called := Nat.zero_le 1
  nowhere _ := ⟨rfl, rfl, rfl, rfl, rfl, rfl, rfl, rfl, rfl⟩

theorem published_step {L L' : Ledger} {m : Move} (h : L.Published) (hs : L.Steps m L') :
    L'.Published := by
  obtain ⟨hm, rfl⟩ := hs
  obtain ⟨honce, hcalled, hnowhere⟩ := h
  simp only [Ledger.holders] at hnowhere
  -- `hm` puts a copy or a worker where the move starts, so before the push there is none
  cases m with
  | die phase =>
    cases phase <;>
      (constructor <;>
        simp only [Ledger.enabled, Ledger.phase, Ledger.apply, Ledger.leave, Ledger.holders]
          at hm ⊢ <;> omega)
  | start attempts =>
    constructor <;>
      simp only [Ledger.enabled, Ledger.apply, Ledger.holders, List.length_append] at hm ⊢ <;> omega
  | _ => constructor <;> simp only [Ledger.enabled, Ledger.apply, Ledger.holders] at hm ⊢ <;> omega

end DistriSys
