import DistriSys.Protocol.Refinement

/-!
# What the steps about other jobs leave alone

Everything a dispatch keeps in Redis is keyed by the job: its record, its
heartbeat, its entries on the processing list and in the active-jobs hash.
`Store.Untouched` says that these are the same before and after, and
**`untouched_step`** that they are for every job but the one the step is about
(`Config.touches`).

The dead list is kept as well, by all but the retry transaction of the job in
question (**`dead_kept`**).

Of these two, the properties about deaths and late workers need no more than the frame: what
nobody has touched since is what it was.

A poll is about the job it is going to pop, if any: which one that is depends on the store
(`WorkerPc.touches`). Counters, the delayed set, waiting lists and idempotency keys are no part of
a dispatch, so commands on them leave every job untouched.
-/

namespace DistriSys

open Js Redis

variable {T : Type}

/-- What the store holds about a dispatch of `id` is the same in `st'` as in `st`. -/
structure Store.Untouched (queue : QueueName) (id : JobId) (st st' : Store) : Prop where
  record : st'.jobs id = st.jobs id
  heartbeat : st'.heartbeats id = st.heartbeats id
  processing : (st'.lists (.processingList queue)).count id =
    (st.lists (.processingList queue)).count id
  active : id ∈ (st'.activeJobs queue).keys ↔ id ∈ (st.activeJobs queue).keys

namespace Store.Untouched

variable {queue : QueueName} {id j : JobId} {st st' st'' : Store}

theorem refl : Untouched queue id st st := ⟨rfl, rfl, rfl, .rfl⟩

theorem trans (h : Untouched queue id st st') (h' : Untouched queue id st' st'') :
    Untouched queue id st st'' :=
  ⟨h'.record.trans h.record, h'.heartbeat.trans h.heartbeat, h'.processing.trans h.processing,
    h'.active.trans h.active⟩

theorem hmset {fields : JobHash} (hj : j ≠ id) : Untouched queue id st (st.hmset j fields) :=
  ⟨by simp [Ne.symm hj], rfl, rfl, .rfl⟩

theorem delJob (hj : j ≠ id) : Untouched queue id st (st.delJob j) :=
  ⟨by simp [Ne.symm hj], rfl, rfl, .rfl⟩

/-- A push on any list but the processing list, also of `id` itself. -/
theorem lpush {key : ListKey} (hkey : key ≠ .processingList queue) :
    Untouched queue id st (st.lpush key j) :=
  ⟨rfl, rfl, by simp [Ne.symm hkey], .rfl⟩

/-- In particular on a waiting list. -/
theorem lpush_waiting {priority : String} :
    Untouched queue id st (st.lpush (.waitingList queue priority) j) := lpush nofun

/-- `LREM` takes copies of the id it is given only. -/
theorem lrem_processing (hj : j ≠ id) :
    Untouched queue id st (st.lrem (.processingList queue) 1 j) :=
  ⟨rfl, rfl, by simp [hj], .rfl⟩

/-- The dead list is no part of a dispatch. -/
theorem lrem_dead : Untouched queue id st (st.lrem (.deadList queue) 0 j) :=
  ⟨rfl, rfl, by simp, .rfl⟩

theorem rpoplpush {priority : String} (hj : j ≠ id)
    (h : st.rpoplpush (.waitingList queue priority) (.processingList queue) = some (j, st')) :
    Untouched queue id st st' := by
  obtain ⟨rest, -, rfl⟩ := Store.rpoplpush_eq_some h
  exact ⟨rfl, rfl, by simp [hj], .rfl⟩

theorem zadd {score : Nat} : Untouched queue id st (st.zadd queue score j) := ⟨rfl, rfl, rfl, .rfl⟩

theorem zrem : Untouched queue id st (st.zrem queue j) := ⟨rfl, rfl, rfl, .rfl⟩

theorem hsetActive {entry : ActiveJobEntry} (hj : j ≠ id) :
    Untouched queue id st (st.hsetActive queue j entry) :=
  ⟨rfl, rfl, rfl, by simp [Ne.symm hj]⟩

theorem hdelActive (hj : j ≠ id) : Untouched queue id st (st.hdelActive queue j) :=
  ⟨rfl, rfl, rfl, by simp [Ne.symm hj]⟩

theorem setHeartbeat {now ttl : Nat} (hj : j ≠ id) :
    Untouched queue id st (st.setHeartbeat now ttl j) :=
  ⟨rfl, by simp [Ne.symm hj], rfl, .rfl⟩

theorem delHeartbeat (hj : j ≠ id) : Untouched queue id st (st.delHeartbeat j) :=
  ⟨rfl, by simp [Ne.symm hj], rfl, .rfl⟩

/-- The counters belong to no job. -/
theorem counters (processed failed time : Nat) : Untouched queue id st
    { st with
      jobsProcessedTotal := processed, jobsFailedTotal := failed, processingTimeSum := time } :=
  ⟨rfl, rfl, rfl, .rfl⟩

/-- The script pushes on a waiting list and writes its slot. -/
theorem idempotentEnqueue {now ttl : Nat} {key priority : String} :
    Untouched queue id st
      (st.idempotentEnqueue now key (.waitingList queue priority) j ttl).2 := by
  unfold Store.idempotentEnqueue
  split
  · exact ⟨rfl, rfl, by simp, .rfl⟩
  · exact refl

end Store.Untouched

/-- The job a worker's next command is about. -/
def WorkerPc.touches (env : Env T) (st : Store) : WorkerPc T → Option JobId
  | poll p =>
    (st.rpoplpush (.waitingList env.queueName p.name) (.processingList env.queueName)).map Prod.fst
  | pc => pc.jobId?

/-- The job the step is about, as far as Redis is concerned. -/
def Config.touches (env : Env T) (s : Config T) (a : Action T) : Option JobId :=
  match a with
  | .produce i => s.producers[i]?.bind ProducerPc.jobId?
  | .work w _ => s.workers[w]?.bind fun wk => wk.pc.touches env s.store
  | .renew w => s.workers[w]?.bind fun wk => wk.pc.renews
  | .schedule _ => s.schedulerTransaction a
  | .watch _ => s.watchdogTransaction a
  | .respond _ => s.retryTransaction a
  | _ => none

section Steps

variable {env : Env T} {s s' : Config T} {a : Action T} {id : JobId}

/-- A producer writes the record of its own call and nothing else of a job. -/
theorem producerStep_untouched {now : Nat} {st : Store} {pc : ProducerPc T}
    {e : Effect (ProducerPc T)} (hid : pc.jobId? ≠ some id)
    (he : producerStep env now st pc = some e) : st.Untouched env.queueName id e.store := by
  cases pc with
  | idle => cases he
  | save id' job key =>
    cases he
    exact .hmset fun h => hid (congrArg some h)
  | claim id' job key =>
    rw [store_of_claim he]
    exact .idempotentEnqueue
  | push id' job =>
    cases he
    exact .lpush (by simp)
  | discard id' claimedId =>
    cases he
    exact .delJob fun h => hid (congrArg some h)

/-- A worker's command is about the job it holds, or, while it polls, the one it pops. -/
theorem workerStep_untouched {now w draw : Nat} {handlers : List String} {st : Store}
    {pc : WorkerPc T} {e : Effect (WorkerPc T)} (hid : pc.touches env st ≠ some id)
    (he : workerStep env now w draw handlers st pc = some e) :
    st.Untouched env.queueName id e.store := by
  cases pc with
  | poll p =>
    simp only [workerStep] at he
    split at he
    · next jobId st' hpop =>
      cases he
      -- the job popped is the one the poll touches
      exact .rpoplpush (fun h => hid (by simp [WorkerPc.touches, hpop, h])) hpop
    · cases he
      exact .refl
  | fetch jobId =>
    simp only [workerStep] at he
    split at he
    · cases he
      exact .refl
    · split at he <;> cases he <;> exact .refl
  | markActive jobId job =>
    cases he
    exact .hmset fun h => hid (congrArg some h)
  | markFailed jobId =>
    cases he
    exact .hmset fun h => hid (congrArg some h)
  | register jobId job startedAt =>
    cases he
    exact .hsetActive fun h => hid (congrArg some h)
  | beat jobId job =>
    cases he
    exact .setHeartbeat fun h => hid (congrArg some h)
  | running => cases he
  | complete jobId elapsed =>
    cases he
    -- the counters are no part of a dispatch
    exact (Store.Untouched.hmset fun h => hid (congrArg some h)).trans (.counters _ _ _)
  | countFailure jobId job =>
    cases he
    exact .counters _ _ _
  | writeDelayed jobId nextAttempt delay =>
    cases he
    exact .hmset fun h => hid (congrArg some h)
  | writeDead jobId nextAttempt =>
    cases he
    exact .hmset fun h => hid (congrArg some h)
  | zaddDelayed jobId score =>
    cases he
    exact .zadd
  | lpushDead jobId =>
    cases he
    exact .lpush (by simp)
  | cleanup jobId =>
    cases he
    have hne : jobId ≠ id := fun h => hid (congrArg some h)
    exact (Store.Untouched.hdelActive hne).trans ((Store.Untouched.delHeartbeat hne).trans
      (.lrem_processing hne))
  | crashed => cases he

/-- The watchdog's transaction is about one job. -/
theorem requeueTransaction_untouched {st : Store} {jobId : JobId} {jobHash : JobHash}
    (hne : jobId ≠ id) :
    st.Untouched env.queueName id (requeueTransaction env st jobId jobHash) := by
  have hremoved : st.Untouched env.queueName id
      ((st.hdelActive env.queueName jobId).lrem (.processingList env.queueName) 1 jobId) :=
    (Store.Untouched.hdelActive hne).trans (.lrem_processing hne)
  unfold requeueTransaction
  split
  · exact hremoved
  · exact (hremoved.trans (.hmset hne)).trans .lpush_waiting

/-- **Frame.** A step changes what the store holds about a dispatch of the job it
is about, and of no other job. -/
theorem untouched_step (hid : s.touches env a ≠ some id) (hs : step env s a = some s') :
    s.store.Untouched env.queueName id s'.store := by
  cases stepped hs with
  | produce hi he => exact producerStep_untouched (by simpa [Config.touches, hi] using hid) he
  | work hw he => exact workerStep_untouched (by simpa [Config.touches, hw] using hid) he
  | @renew w wk id' hw hrenews =>
    exact .setHeartbeat fun h => hid (by simp [Config.touches, hw, hrenews, h])
  | @schedule i pc hi =>
    cases pc with
    | idle => exact .refl
    | lookup => exact .refl
    | move jobId priority rest =>
      have hne : jobId ≠ id := fun h =>
        hid (by simp [Config.touches, Config.schedulerTransaction, hi, h])
      exact (Store.Untouched.zrem.trans .lpush_waiting).trans (.hmset hne)
  | @watch i pc hi =>
    cases pc with
    | requeue jobId jobHash rest =>
      have hne : jobId ≠ id := fun h =>
        hid (by simp [Config.touches, Config.watchdogTransaction, hi, h])
      exact requeueTransaction_untouched hne
    | _ => exact .refl
  | @respond i pc e hi he =>
    cases pc with
    | idle => cases he
    | requeue id' priority =>
      cases he
      have hne : id' ≠ id := fun h => hid (by simp [Config.touches, Config.retryTransaction, hi, h])
      exact (Store.Untouched.lrem_dead.trans (.hmset hne)).trans .lpush_waiting
  | _ => exact .refl

/-! ## The dead list -/

theorem Store.mem_lpush {st : Store} {key key' : ListKey} {j : JobId} (h : id ∈ st.lists key) :
    id ∈ (st.lpush key' j).lists key := by
  by_cases hkey : key = key'
  · subst hkey
    simp [h]
  · simpa [hkey] using h

/-- No command of a worker takes anything off the dead list. -/
theorem dead_kept_workerStep {now w draw : Nat} {handlers : List String} {st : Store}
    {pc : WorkerPc T} {e : Effect (WorkerPc T)}
    (he : workerStep env now w draw handlers st pc = some e)
    (hdead : id ∈ st.lists (.deadList env.queueName)) :
    id ∈ e.store.lists (.deadList env.queueName) := by
  cases pc with
  | poll p =>
    simp only [workerStep] at he
    split at he
    · next jobId st' hpop =>
      cases he
      rwa [(Store.counts_rpoplpush hpop id).2.2]
    · cases he
      exact hdead
  | fetch jobId =>
    simp only [workerStep] at he
    split at he
    · cases he
      exact hdead
    · split at he <;> cases he <;> exact hdead
  | lpushDead jobId =>
    cases he
    exact Store.mem_lpush hdead
  | cleanup jobId =>
    cases he
    simpa using hdead
  | running => cases he
  | crashed => cases he
  | _ =>
    cases he
    exact hdead

/-- **Only a retry takes a job off the dead list.** -/
theorem dead_kept (hs : step env s a = some s') (hretry : s.retryTransaction a ≠ some id)
    (hdead : id ∈ s.store.lists (.deadList env.queueName)) :
    id ∈ s'.store.lists (.deadList env.queueName) := by
  cases stepped hs with
  | @produce i pc e hi he =>
    cases pc with
    | idle => cases he
    | claim id' job key =>
      rw [store_of_claim he, Store.idempotentEnqueue]
      split
      · exact Store.mem_lpush hdead
      · exact hdead
    | push id' job =>
      cases he
      exact Store.mem_lpush hdead
    | _ =>
      cases he
      exact hdead
  | work hw he => exact dead_kept_workerStep he hdead
  | @schedule i pc hi =>
    cases pc with
    | move jobId priority rest =>
      simp only [schedulerStep, Store.hmset_lists]
      exact Store.mem_lpush hdead
    | _ => exact hdead
  | @watch i pc hi =>
    cases pc with
    | requeue jobId jobHash rest =>
      simp only [watchdogStep, requeueTransaction]
      split
      · simpa using hdead
      -- a push on a waiting list, whatever its name, takes nothing off
      · exact Store.mem_lpush (by simpa using hdead)
    | _ => exact hdead
  | @respond i pc e hi he =>
    cases pc with
    | idle => cases he
    | requeue id' priority =>
      cases he
      have hne : id' ≠ id := fun h => hretry (by simp [Config.retryTransaction, hi, h])
      refine Store.mem_lpush ?_
      have hcount : 0 < (s.store.lists (.deadList env.queueName)).count id :=
        List.count_pos_iff.mpr hdead
      exact List.count_pos_iff.mp (by simpa [hne] using hcount)
  | _ => exact hdead

end Steps

end DistriSys
