import DistriSys.Core.Store
import Mathlib.Data.Rat.Defs

/-!
# The numbers of the dashboard (`src/api/routes.ts`, `src/queue/Queue.ts`)

`GET /stats` reads the lengths of the lists, the size of the delayed set and the three
counters in one transaction; `getQueueDepths` reads the waiting lists only. The average is
the exact quotient here, JavaScript rounds it.

The counters are running totals since the keys were created, the depths are those of the
moment. There is no figure for the processing list. What the two kinds of numbers have to do
with each other is in `Protocol.Stats`.
-/

namespace DistriSys

/-- `QueueDepths`. -/
structure QueueDepths where
  high : Nat
  normal : Nat
  low : Nat
  delayed : Nat
  dead : Nat
deriving DecidableEq

/-- `QueueMetrics`. -/
structure QueueMetrics where
  jobsProcessedTotal : Nat
  jobsFailedTotal : Nat
  avgProcessingTimeMs : ℚ
deriving DecidableEq

/-- `StatsResponse`. -/
structure StatsResponse where
  queues : QueueDepths
  metrics : QueueMetrics
deriving DecidableEq

/-- `LLEN`. -/
def Store.llen (st : Store) (key : ListKey) : Nat := (st.lists key).length

/-- `ZCARD`. -/
def Store.zcard (st : Store) (queue : QueueName) : Nat := (st.delayed queue).members.length

/-- The three counters. -/
def Store.counters (st : Store) : Nat × Nat × Nat :=
  (st.jobsProcessedTotal, st.jobsFailedTotal, st.processingTimeSum)

variable {T : Type}

/-- `GET /stats`. -/
def stats (env : Env T) (st : Store) : StatsResponse where
  queues :=
    { high := st.llen (.waitingList env.queueName JobPriority.high.name)
      normal := st.llen (.waitingList env.queueName JobPriority.normal.name)
      low := st.llen (.waitingList env.queueName JobPriority.low.name)
      delayed := st.zcard env.queueName
      dead := st.llen (.deadList env.queueName) }
  metrics :=
    { jobsProcessedTotal := st.jobsProcessedTotal
      jobsFailedTotal := st.jobsFailedTotal
      avgProcessingTimeMs :=
        if 0 < st.jobsProcessedTotal then st.processingTimeSum / st.jobsProcessedTotal else 0 }

/-- `getQueueDepths`: the number of waiting jobs of each priority. -/
def getQueueDepths (env : Env T) (st : Store) (p : JobPriority) : Nat :=
  st.llen (.waitingList env.queueName p.name)

/-- The jobs of the five figures. -/
def QueueDepths.total (q : QueueDepths) : Nat := q.high + q.normal + q.low + q.delayed + q.dead

theorem stats_waiting (env : Env T) (st : Store) :
    (priorities.flatMap fun p => st.lists (.waitingList env.queueName p.name)).length =
      (stats env st).queues.high + (stats env st).queues.normal + (stats env st).queues.low := by
  simp [priorities, stats, Store.llen]
  omega

end DistriSys
